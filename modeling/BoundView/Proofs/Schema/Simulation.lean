import BoundView.Schema.Minimal
import BoundView.Proofs.Schema.Conforming

/-!
# Types that check alike

Two types, of one schema or of two, check alike if their slots may be absent alike, and if they are
of one kind, with parts that check alike in turn.  Main statement: then whatever one type makes of a
value the other one makes of it, at any place; what is wrong with a value hangs on the value alone,
and the place where the value stands goes in front of the path.
-/

namespace BoundView

open Outcome (bind_eq_ok map_eq_ok)

namespace Schema

/-! ## Outcomes -/

/-- Whether the outcome of a check at one place follows that of a check at another one: a value that
is given is given again, and, if this has to be `exact`, an error comes again, moved along with the
place. -/
structure Follows (exact : Prop) {α : Type} (path path' : Path)
    (x x' : Except ValidationError α) : Prop where
  ok : ∀ a, x = .ok a → x' = .ok a
  error : exact → ∀ e, x = .error e →
    ∃ rest, e.path = path ++ rest ∧ x' = .error ⟨path' ++ rest, e.violation⟩

namespace Follows

variable {exact : Prop} {α β : Type} {path path' : Path} {x x' : Except ValidationError α}

theorem pure (a : α) : Follows exact path path' (.ok a) (.ok a) where
  ok _ h := h
  error _ _ h := nomatch h

theorem here (violation : Violation) :
    Follows (α := α) exact path path' (.error ⟨path, violation⟩) (.error ⟨path', violation⟩) where
  ok _ h := nomatch h
  error _ e h := by
    obtain rfl := Except.error.inj h
    exact ⟨[], (List.append_nil path).symm, by rw [List.append_nil]⟩

/-- A part of a place is part of what contains it. -/
theorem below {seg : Seg} (h : Follows exact (path ++ [seg]) (path' ++ [seg]) x x') :
    Follows exact path path' x x' where
  ok := h.ok
  error hexact e he := by
    obtain ⟨rest, hpath, hx'⟩ := h.error hexact e he
    refine ⟨seg :: rest, ?_, ?_⟩
    · rw [hpath, List.append_assoc, List.singleton_append]
    · rw [hx', List.append_assoc, List.singleton_append]

theorem bind {f f' : α → Except ValidationError β} (h : Follows exact path path' x x')
    (hf : ∀ a, Follows exact path path' (f a) (f' a)) :
    Follows exact path path' (x >>= f) (x' >>= f') := by
  cases x with
  | ok a =>
    rw [h.ok a rfl]
    exact hf a
  | error e =>
    refine ⟨fun b hb => (nomatch hb), fun hexact e' he' => ?_⟩
    obtain rfl := Except.error.inj he'
    obtain ⟨rest, hpath, hx'⟩ := h.error hexact e rfl
    exact ⟨rest, hpath, by rw [hx']; rfl⟩

theorem map (f : α → β) (h : Follows exact path path' x x') :
    Follows exact path path' (f <$> x) (f <$> x') := by
  have hbind := h.bind fun a => Follows.pure (f a)
  cases x <;> cases x' <;> exact hbind

theorem eq (h : Follows True path path x x') : x' = x := by
  cases x with
  | ok a => exact h.ok a rfl
  | error e =>
    obtain ⟨rest, hpath, hx'⟩ := h.error trivial e rfl
    rw [hx', ← hpath]

end Follows

/-! ## Types -/

/-- Kinds with parts that are related pair by pair.  Computed fields do not count. -/
inductive KindsAlike (rel : TypeId → TypeId → Prop) : TypeKind TypeId → TypeKind TypeId → Prop where
  | string : KindsAlike rel .string .string
  | number (rules : List Rule) : KindsAlike rel (.number rules) (.number rules)
  | boolean : KindsAlike rel .boolean .boolean
  | array {items items' : TypeId} (h : rel items items') :
      KindsAlike rel (.array items) (.array items')
  | object {type type' : ObjectType}
      (h : List.Forall₂ (fun field field' => field.1 = field'.1 ∧ rel field.2 field'.2)
        type.fields type'.fields) : KindsAlike rel (.object type) (.object type')
  | ref (target target' : TypeId) : KindsAlike rel (.ref target) (.ref target')
  | any (declared declared' : String) : KindsAlike rel (.any declared) (.any declared')

theorem KindsAlike.refl {rel : TypeId → TypeId → Prop} (hrel : ∀ id, rel id id)
    (kind : TypeKind TypeId) : KindsAlike rel kind kind := by
  cases kind with
  | string => exact .string
  | number rules => exact .number rules
  | boolean => exact .boolean
  | array items => exact .array (hrel items)
  | object type => exact .object (List.forall₂_same.2 fun field _ => ⟨rfl, hrel field.2⟩)
  | ref target => exact .ref target target
  | any declared => exact .any declared declared

/-- Related types of two schemas check alike. -/
structure Simulates (rel : TypeId → TypeId → Prop) (s s' : Schema) : Prop where
  presence_eq : ∀ {id id'}, rel id id' → s.presence id = s'.presence id'
  kinds : ∀ {id id'}, rel id id' → KindsAlike rel (s.kind id) (s'.kind id')

theorem Simulates.refl (s : Schema) : Simulates Eq s s where
  presence_eq h := congrArg s.presence h
  kinds h := h ▸ .refl (fun _ => rfl) _

/-! ## Checks -/

variable {exact : Prop} {rel : TypeId → TypeId → Prop} {s s' : Schema}
  {expand expand' : Json → Check}

/-- Checks that follow one another wherever they are made. -/
def ChecksAlike (exact : Prop) (rel : TypeId → TypeId → Prop) (check check' : Check) : Prop :=
  ∀ ⦃id id'⦄, rel id id' → ∀ path path', Follows exact path path' (check id path) (check' id' path')

/-- What is given for a slot in either of two checks. -/
def GivenAlike (exact : Prop) (rel : TypeId → TypeId → Prop) (given given' : Json × Check) : Prop :=
  given.1 = given'.1 ∧ ChecksAlike exact rel given.2 given'.2

/-- Defaults of related slots are expanded alike. -/
def ExpandsAlike (exact : Prop) (rel : TypeId → TypeId → Prop) (s : Schema)
    (expand expand' : Json → Check) : Prop :=
  ∀ ⦃id id' value⦄, rel id id' → s.presence id = .defaulted value → ∀ path path',
    Follows exact path path' (expand value id path) (expand' value id' path')

theorem checkLeaf_follows (hs : Simulates rel s s') (value : Json) :
    ChecksAlike exact rel (s.checkLeaf value) (s'.checkLeaf value) := by
  intro id id' hid path path'
  have hkinds := hs.kinds hid
  unfold checkLeaf
  generalize s.kind id = kind at hkinds ⊢
  generalize s'.kind id' = kind' at hkinds ⊢
  cases hkinds with
  | any => exact .pure value
  | ref => exact .here _
  | array | object => exact .here _
  | string | boolean =>
    dsimp only
    split
    · exact .pure _
    · exact .here _
  | number rules =>
    dsimp only
    split
    · split
      · exact .here _
      · exact .pure _
    · exact .here _

theorem fillAbsent_follows (hs : Simulates rel s s')
    (hexpand : ExpandsAlike exact rel s expand expand')
    (value? : Option Json) {id id' : TypeId} (hid : rel id id') (path path' : Path) :
    Follows exact path path' (s.fillAbsent expand value? id path)
      (s'.fillAbsent expand' value? id' path') := by
  have hany : (s.kind id).isAny = (s'.kind id').isAny := by
    have hkinds := hs.kinds hid
    generalize s.kind id = kind at hkinds ⊢
    generalize s'.kind id' = kind' at hkinds ⊢
    cases hkinds <;> rfl
  unfold fillAbsent
  rw [← hany, ← hs.presence_eq hid]
  by_cases h : (s.kind id).isAny = true
  · rw [if_pos h, if_pos h]
    exact .pure value?
  · rw [if_neg h, if_neg h]
    cases hpresence : s.presence id with
    | defaulted value => exact (hexpand hid hpresence path path').map some
    | optional => exact .pure none
    | required => exact .here _

theorem fillSlot_follows (hs : Simulates rel s s')
    (hexpand : ExpandsAlike exact rel s expand expand')
    {given given' : Option (Json × Check)} (hgiven : Option.Rel (GivenAlike exact rel) given given')
    {id id' : TypeId} (hid : rel id id') (path path' : Path) :
    Follows exact path path' (s.fillSlot expand given id path)
      (s'.fillSlot expand' given' id' path') := by
  cases hgiven with
  | none => exact fillAbsent_follows hs hexpand none hid path path'
  | @some given given' h =>
    obtain ⟨value, check⟩ := given
    obtain ⟨value', check'⟩ := given'
    obtain ⟨rfl, hcheck⟩ := h
    rw [fillSlot_some, fillSlot_some]
    split
    · exact fillAbsent_follows hs hexpand _ hid path path'
    · exact (hcheck hid path path').map some

theorem fillElements_follows (hs : Simulates rel s s')
    (hexpand : ExpandsAlike exact rel s expand expand') {given given' : List (Json × Check)}
    (hgiven : List.Forall₂ (GivenAlike exact rel) given given') {items items' : TypeId}
    (hitems : rel items items') (path path' : Path) (index : Nat) :
    Follows exact path path' (s.fillElements expand items path index given)
      (s'.fillElements expand' items' path' index given') := by
  induction hgiven generalizing index with
  | nil => exact .pure []
  | cons hfirst _ ih =>
    rw [fillElements, fillElements]
    have hslot := fillSlot_follows hs hexpand (.some hfirst) hitems (path ++ [.index index])
      (path' ++ [.index index])
    exact hslot.below.bind fun value? => (ih (index + 1)).bind fun values => .pure _

theorem fillFields_follows (hs : Simulates rel s s')
    (hexpand : ExpandsAlike exact rel s expand expand') {given given' : Members (Json × Check)}
    (hgiven : ∀ name, Option.Rel (GivenAlike exact rel) (Members.find? name given)
      (Members.find? name given')) {fields fields' : List (String × TypeId)}
    (hfields : List.Forall₂ (fun field field' => field.1 = field'.1 ∧ rel field.2 field'.2)
      fields fields') (path path' : Path) :
    Follows exact path path' (s.fillFields expand given path fields)
      (s'.fillFields expand' given' path' fields') := by
  induction hfields with
  | nil => exact .pure []
  | @cons field field' rest rest' hfirst _ ih =>
    obtain ⟨name, id⟩ := field
    obtain ⟨name', id'⟩ := field'
    obtain ⟨rfl, hid⟩ := hfirst
    rw [fillFields, fillFields]
    have hslot := fillSlot_follows hs hexpand (hgiven name) hid (path ++ [.field name])
      (path' ++ [.field name])
    refine hslot.below.bind fun value? => ih.bind fun members => ?_
    cases value? <;> exact .pure _

mutual

/-- Related types make the same of a value. -/
theorem check_follows (hs : Simulates rel s s')
    (hexpand : ExpandsAlike exact rel s expand expand') :
    ∀ value, ChecksAlike exact rel (s.check expand value) (s'.check expand' value)
  | .array xs => by
    intro id id' hid path path'
    have hkinds := hs.kinds hid
    have hleaf : Follows exact path path' _ _ := checkLeaf_follows hs (.array xs) hid path path'
    rw [check, check]
    dsimp only
    generalize s.kind id = kind at hkinds ⊢
    generalize s'.kind id' = kind' at hkinds ⊢
    cases hkinds with
    | array hitems =>
      exact (fillElements_follows hs hexpand (checkItems_follows hs hexpand xs) hitems path path'
        0).map Json.array
    | string | number | boolean | object | ref | any => exact hleaf
  | .object ms => by
    intro id id' hid path path'
    have hkinds := hs.kinds hid
    have hleaf : Follows exact path path' _ _ := checkLeaf_follows hs (.object ms) hid path path'
    rw [check, check]
    dsimp only
    generalize s.kind id = kind at hkinds ⊢
    generalize s'.kind id' = kind' at hkinds ⊢
    cases hkinds with
    | object hfields =>
      exact (fillFields_follows hs hexpand (checkMembers_follows hs hexpand ms) hfields path
        path').map Json.object
    | string | number | boolean | array | ref | any => exact hleaf
  | .null | .bool _ | .number _ | .string _ => by
    intro id id' hid path path'
    rw [check, check]
    · exact checkLeaf_follows hs _ hid path path'
    all_goals exact fun _ heq => nomatch heq

theorem checkItems_follows (hs : Simulates rel s s')
    (hexpand : ExpandsAlike exact rel s expand expand') :
    ∀ xs, List.Forall₂ (GivenAlike exact rel) (s.checkItems expand xs) (s'.checkItems expand' xs)
  | [] => by
    rw [checkItems, checkItems]
    exact .nil
  | x :: rest => by
    rw [checkItems, checkItems]
    exact .cons ⟨rfl, check_follows hs hexpand x⟩ (checkItems_follows hs hexpand rest)

theorem checkMembers_follows (hs : Simulates rel s s')
    (hexpand : ExpandsAlike exact rel s expand expand') : ∀ ms name,
    Option.Rel (GivenAlike exact rel) (Members.find? name (s.checkMembers expand ms))
      (Members.find? name (s'.checkMembers expand' ms))
  | [], name => by
    rw [checkMembers, checkMembers]
    exact .none
  | (key, value) :: rest, name => by
    rw [checkMembers, checkMembers, Members.find?, Members.find?]
    split
    · exact .some ⟨rfl, check_follows hs hexpand value⟩
    · exact checkMembers_follows hs hexpand rest name

end

/-- Related types expand a default to the same. -/
theorem expandDefault_follows (hs : Simulates rel s s') (depth : Nat) (value : Json) :
    ChecksAlike exact rel (s.expandDefault depth value) (s'.expandDefault depth value) := by
  induction depth generalizing value with
  | zero => exact fun _ _ hid path path' => .here _
  | succ depth ih =>
    intro id id' hid path path'
    exact check_follows hs (fun _ _ default hid' _ => ih default hid') value hid path path'

/-- Related types have the same minimal values. -/
theorem minimalWithin_eq (hs : Simulates rel s s') {id id' : TypeId} (hid : rel id id')
    (depth : Nat) : s.minimalWithin depth id = s'.minimalWithin depth id' := by
  induction depth generalizing id id' with
  | zero => rfl
  | succ depth ih =>
    have hkinds := hs.kinds hid
    rw [minimalWithin, minimalWithin]
    generalize s.kind id = kind at hkinds ⊢
    generalize s'.kind id' = kind' at hkinds ⊢
    cases hkinds with
    | string | number | boolean | array | ref | any => rfl
    | @object type type' hfields =>
      refine congrArg Json.object ?_
      generalize type.fields = fields at hfields ⊢
      generalize type'.fields = fields' at hfields ⊢
      induction hfields with
      | nil => rfl
      | cons hfirst _ ihFields =>
        have hpresence := hs.presence_eq hfirst.2
        rw [List.filter_cons, List.filter_cons, hpresence]
        split
        · rw [List.map_cons, List.map_cons, hfirst.1, ih hfirst.2, ihFields]
        · exact ihFields

end Schema

end BoundView
