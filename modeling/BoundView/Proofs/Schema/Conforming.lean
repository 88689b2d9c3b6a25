import BoundView.Schema.Instantiate
import BoundView.Proofs.Members
import BoundView.Proofs.Outcome
import BoundView.Proofs.Schema.Layout

/-!
# Values that conform to a type

`Schema.Conforms` says what a stored value of a type is, without reference to the check that fills
it in.  Main statements: what the check lets through conforms, defaults included, and a value that
conforms passes the check and comes back as it was, but for the order of members.
-/

namespace BoundView

open Outcome (bind_eq_ok map_eq_ok)

namespace Json

theorem eq_null_of_isNull {j : Json} (h : j.isNull = true) : j = .null := by
  cases j with
  | null => rfl
  | bool | number | string | array | object => exact nomatch h

/-- The same document but for the order of members. -/
inductive Reordered : Json → Json → Prop where
  | refl (j : Json) : Reordered j j
  | array {xs ys : List Json} (hlength : xs.length = ys.length)
      (hitems : ∀ (i : Nat) x y, xs[i]? = some x → ys[i]? = some y → Reordered x y) :
      Reordered (.array xs) (.array ys)
  | object {ms ns : List (String × Json)} (hnodup : (ns.map Prod.fst).Nodup)
      (hnames : (ms.map Prod.fst).Perm (ns.map Prod.fst))
      (hmembers : ∀ name v w, Members.find? name ms = some v → Members.find? name ns = some w →
        Reordered v w) :
      Reordered (.object ms) (.object ns)

theorem Reordered.of_forall₂ {xs ys : List Json} (h : List.Forall₂ Reordered xs ys) :
    Reordered (.array xs) (.array ys) := by
  refine .array h.length_eq fun i x y hx hy => ?_
  obtain ⟨hi, rfl⟩ := List.getElem?_eq_some_iff.1 hx
  obtain ⟨hi', rfl⟩ := List.getElem?_eq_some_iff.1 hy
  exact h.get hi hi'

/-- One member may be put in front of the others. -/
theorem Reordered.of_erase {name : String} {value : Json} {ms ns : Members Json}
    (hnodup : (ms.map Prod.fst).Nodup) (hvalue : Members.find? name ms = some value)
    (h : List.Forall₂ (fun p q => p.1 = q.1 ∧ Reordered p.2 q.2) ns (Members.erase name ms)) :
    Reordered (.object (Members.merge [(name, value)] ns)) (.object ms) := by
  have hnames : ns.map Prod.fst = (ms.map Prod.fst).erase name :=
    (Members.names_of_forall₂ h).trans Members.keys_erase
  have hperm : (([(name, value)] ++ ns).map Prod.fst).Perm (ms.map Prod.fst) := by
    rw [List.map_append, hnames]
    exact (List.perm_cons_erase (Members.mem_names_of_find? hvalue)).symm
  rw [Members.merge_of_nodup (hperm.nodup_iff.2 hnodup)]
  refine .object hnodup hperm fun other v w hv hw => ?_
  by_cases hother : name = other
  · obtain rfl : value = v := Option.some.inj ((if_pos hother).symm.trans hv)
    obtain rfl := Option.some.inj (hvalue.symm.trans (hother ▸ hw))
    exact .refl value
  · have hv : Members.find? other ns = some v := (if_neg hother).symm.trans hv
    rw [← Members.find?_erase_of_ne ms (Ne.symm hother)] at hw
    exact Members.find?_of_forall₂ h hv hw

end Json

open Json (Reordered)

namespace Schema

variable (s : Schema)

/-! ## Types and their values -/

/-- Whether a slot may be left without a value: it accepts anything, or it is optional. -/
def MayBeAbsent (id : TypeId) : Prop :=
  (s.kind id).isAny = true ∨ (s.presence id).isOptional = true

/-- The stored values of a type.  An object has fields that are declared and stored, each of which
is of its own type, and lacks none that has to be there; an element is `null` only where it may be
absent. -/
inductive Conforms : TypeId → Json → Prop where
  | any {id : TypeId} {declared : String} (hkind : s.kind id = .any declared) (j : Json) :
      Conforms id j
  | string {id : TypeId} (hkind : s.kind id = .string) (text : String) : Conforms id (.string text)
  | boolean {id : TypeId} (hkind : s.kind id = .boolean) (b : Bool) : Conforms id (.bool b)
  | number {id : TypeId} {rules : List Rule} (hkind : s.kind id = .number rules) (n : Json.Number)
      (hrules : ∀ rule ∈ rules, rule.rejects n.toFloat = false) : Conforms id (.number n)
  | array {id items : TypeId} {xs : List Json} (hkind : s.kind id = .array items)
      (hitems : ∀ x ∈ xs, x.isNull = false → Conforms items x)
      (hnulls : ∀ x ∈ xs, x.isNull = true → s.MayBeAbsent items) : Conforms id (.array xs)
  | object {id : TypeId} {type : ObjectType} {ms : List (String × Json)}
      (hkind : s.kind id = .object type) (hnodup : (ms.map Prod.fst).Nodup)
      (hdeclared : ∀ name ∈ ms.map Prod.fst, name ∈ type.fields.map Prod.fst)
      (hmembers : ∀ name field value, Members.find? name type.fields = some field →
        Members.find? name ms = some value → Conforms field value)
      (habsent : ∀ name field, Members.find? name type.fields = some field →
        Members.find? name ms = none → s.MayBeAbsent field) :
      Conforms id (.object ms)

/-- What may stand in a slot whose values have a property. -/
def Fills (P : TypeId → Json → Prop) (id : TypeId) : Option Json → Prop
  | some value => P id value
  | none => s.MayBeAbsent id

/-- What may stand in a slot. -/
def Fits (id : TypeId) : Option Json → Prop :=
  s.Fills s.Conforms id

/-- What may stand among the elements of an array. -/
def FitsElement (items : TypeId) (x : Json) : Prop :=
  (x.isNull = false → s.Conforms items x) ∧ (x.isNull = true → s.MayBeAbsent items)

/-- A check that lets only values through that have a property. -/
def Gives (P : TypeId → Json → Prop) (check : Check) : Prop :=
  ∀ id path value, check id path = .ok value → P id value

/-- A property of stored values that a value has if its parts have it. -/
structure Composes (P : TypeId → Json → Prop) : Prop where
  any : ∀ {id declared}, s.kind id = .any declared → ∀ j, P id j
  string : ∀ {id}, s.kind id = .string → ∀ text, P id (.string text)
  boolean : ∀ {id}, s.kind id = .boolean → ∀ b, P id (.bool b)
  number : ∀ {id rules}, s.kind id = .number rules → ∀ n : Json.Number,
    (∀ rule ∈ rules, rule.rejects n.toFloat = false) → P id (.number n)
  array : ∀ {id items xs}, s.kind id = .array items →
    (∀ x ∈ xs, ∃ value?, s.Fills P items value? ∧ value?.getD .null = x) → P id (.array xs)
  object : ∀ {id type ms}, s.kind id = .object type →
    (ms.map Prod.fst).Sublist (type.fields.map Prod.fst) →
    (∀ name field, Members.find? name type.fields = some field →
      s.Fills P field (Members.find? name ms)) → P id (.object ms)

variable {s}

/-- What is required may not be absent, unless it accepts anything. -/
theorem not_mayBeAbsent {id : TypeId} (hrequired : (s.presence id).isRequired = true)
    (hknown : (s.kind id).isAny = false) : ¬s.MayBeAbsent id := by
  rintro (hany | hoptional)
  · exact Bool.false_ne_true (hknown.symm.trans hany)
  · cases hpresence : s.presence id with
    | required =>
      rw [hpresence] at hoptional
      cases hoptional
    | optional | defaulted =>
      rw [hpresence] at hrequired
      cases hrequired

theorem Conforms.isAny_eq_true {id : TypeId} {j : Json} (h : s.Conforms id j)
    (hnull : j.isNull = true) : (s.kind id).isAny = true := by
  cases h with
  | any hkind => rw [hkind]; rfl
  | string | boolean | number | array | object => exact nomatch hnull

theorem Conforms.object_iff {id : TypeId} {type : ObjectType} {ms : List (String × Json)}
    (hkind : s.kind id = .object type) :
    s.Conforms id (.object ms) ↔ (ms.map Prod.fst).Nodup
      ∧ (∀ name ∈ ms.map Prod.fst, name ∈ type.fields.map Prod.fst)
      ∧ ∀ name field, Members.find? name type.fields = some field →
        s.Fits field (Members.find? name ms) := by
  constructor
  · intro h
    cases h with
    | any hany => exact nomatch hkind.symm.trans hany
    | object hobject hnodup hdeclared hmembers habsent =>
      obtain rfl := TypeKind.object.inj (hkind.symm.trans hobject)
      refine ⟨hnodup, hdeclared, fun name field hfind => ?_⟩
      cases hvalue : Members.find? name ms with
      | none => exact habsent name field hfind hvalue
      | some value => exact hmembers name field value hfind hvalue
  · rintro ⟨hnodup, hdeclared, hfits⟩
    refine .object hkind hnodup hdeclared (fun name field value hfind hvalue => ?_)
      fun name field hfind hvalue => ?_
    · have hfit := hfits name field hfind
      rwa [hvalue] at hfit
    · have hfit := hfits name field hfind
      rwa [hvalue] at hfit

theorem Conforms.array_iff {id items : TypeId} {xs : List Json} (hkind : s.kind id = .array items) :
    s.Conforms id (.array xs) ↔ ∀ x ∈ xs, s.FitsElement items x := by
  constructor
  · intro h
    cases h with
    | any hany => exact nomatch hkind.symm.trans hany
    | array harray hitems hnulls =>
      obtain rfl := TypeKind.array.inj (hkind.symm.trans harray)
      exact fun x hx => ⟨hitems x hx, hnulls x hx⟩
  · exact fun h => .array hkind (fun x hx => (h x hx).1) fun x hx => (h x hx).2

theorem Fits.getD {id : TypeId} {value? : Option Json} (h : s.Fits id value?) :
    s.FitsElement id (value?.getD .null) := by
  cases value? with
  | none => exact ⟨fun hnull => (nomatch hnull), fun _ => h⟩
  | some value => exact ⟨fun _ => h, fun hnull => .inl (Conforms.isAny_eq_true h hnull)⟩

/-! ## What is let through -/

theorem checkLeaf_gives {P : TypeId → Json → Prop} (hP : s.Composes P) (value : Json) :
    Gives P (s.checkLeaf value) := by
  intro id path out h
  unfold checkLeaf at h
  dsimp only at h
  split at h
  · rename_i declared hkind
    exact hP.any hkind out
  · rename_i hkind
    split at h
    · exact Except.ok.inj h ▸ hP.string hkind _
    · exact nomatch h
  · rename_i hkind
    split at h
    · exact Except.ok.inj h ▸ hP.boolean hkind _
    · exact nomatch h
  · rename_i rules hkind
    split at h
    · rename_i n
      split at h
      · exact nomatch h
      · rename_i hfind
        refine Except.ok.inj h ▸ hP.number hkind n fun rule hrule => ?_
        exact Bool.eq_false_iff.2 (List.find?_eq_none.1 hfind rule hrule)
    · exact nomatch h
  · exact nomatch h
  · exact nomatch h
  · exact nomatch h

theorem checkLeaf_eq_ok {value out : Json} {id : TypeId} {path : Path}
    (h : s.checkLeaf value id path = .ok out) : out = value := by
  unfold checkLeaf at h
  dsimp only at h
  repeat' split at h
  all_goals first | exact (Except.ok.inj h).symm | exact nomatch h

/-- No value but `null` is stored as `null`. -/
theorem isNull_check {expand : Json → Check} {value out : Json} {id : TypeId} {path : Path}
    (h : s.check expand value id path = .ok out) (hnull : value.isNull = false) :
    out.isNull = false := by
  cases value with
  | null => exact nomatch hnull
  | bool | number | string =>
    rw [check] at h
    · exact checkLeaf_eq_ok h ▸ rfl
    · exact fun items heq => (nomatch heq)
    · exact fun ms heq => (nomatch heq)
  | array xs =>
    rw [check] at h
    dsimp only at h
    split at h
    · obtain ⟨ys, -, rfl⟩ := Outcome.map_eq_ok.1 h
      rfl
    · exact checkLeaf_eq_ok h ▸ rfl
  | object ms =>
    rw [check] at h
    dsimp only at h
    split at h
    · obtain ⟨ns, -, rfl⟩ := Outcome.map_eq_ok.1 h
      rfl
    · exact checkLeaf_eq_ok h ▸ rfl

section

variable {P : TypeId → Json → Prop} {expand : Json → Check}

theorem fillAbsent_gives (hP : s.Composes P) (hexpand : ∀ value, Gives P (expand value))
    {value? out : Option Json} {id : TypeId} {path : Path}
    (h : s.fillAbsent expand value? id path = .ok out) : s.Fills P id out := by
  unfold fillAbsent at h
  split at h
  · rename_i hany
    cases hkind : s.kind id with
    | any declared =>
      cases out with
      | none => exact .inl hany
      | some value => exact hP.any hkind value
    | string | number | boolean | array | object | ref =>
      rw [hkind] at hany
      exact nomatch hany
  · split at h
    · rename_i value hpresence
      obtain ⟨filled, hfilled, rfl⟩ := map_eq_ok.1 h
      exact hexpand value id path filled hfilled
    · rename_i hpresence
      obtain rfl := Except.ok.inj h
      exact .inr (by rw [hpresence]; rfl)
    · exact nomatch h

theorem fillSlot_gives (hP : s.Composes P) (hexpand : ∀ value, Gives P (expand value))
    {given : Option (Json × Check)}
    (hgiven : ∀ value check, given = some (value, check) → Gives P check)
    {out : Option Json} {id : TypeId} {path : Path}
    (h : s.fillSlot expand given id path = .ok out) : s.Fills P id out := by
  unfold fillSlot at h
  split at h
  · rename_i value check
    split at h
    · exact fillAbsent_gives hP hexpand h
    · obtain ⟨filled, hfilled, rfl⟩ := map_eq_ok.1 h
      exact hgiven value check rfl id path filled hfilled
  · exact fillAbsent_gives hP hexpand h

theorem fillElements_gives (hP : s.Composes P) (hexpand : ∀ value, Gives P (expand value))
    {given : List (Json × Check)} (hgiven : ∀ pair ∈ given, Gives P pair.2)
    {items : TypeId} {path : Path} {index : Nat} {ys : List Json}
    (h : s.fillElements expand items path index given = .ok ys) :
    ∀ y ∈ ys, ∃ value?, s.Fills P items value? ∧ value?.getD .null = y := by
  induction given generalizing index ys with
  | nil =>
    obtain rfl := Except.ok.inj h
    exact fun y hy => absurd hy List.not_mem_nil
  | cons pair rest ih =>
    obtain ⟨value?, hvalue, h⟩ := bind_eq_ok.1 h
    obtain ⟨values, hvalues, h⟩ := bind_eq_ok.1 h
    obtain rfl := Except.ok.inj h
    have hfills : s.Fills P items value? := by
      refine fillSlot_gives hP hexpand (fun value check heq => ?_) hvalue
      obtain rfl := Option.some.inj heq
      exact hgiven _ List.mem_cons_self
    intro y hy
    rcases List.mem_cons.1 hy with rfl | hy
    · exact ⟨value?, hfills, rfl⟩
    · exact ih (fun pair hpair => hgiven pair (List.mem_cons_of_mem _ hpair)) hvalues y hy

end

/-- The members of a checked object: each declared field with what its slot was filled with. -/
theorem fillFields_eq_ok {expand : Json → Check} {given : Members (Json × Check)} {path : Path}
    {fields : List (String × TypeId)} {ms : List (String × Json)}
    (h : s.fillFields expand given path fields = .ok ms) :
    (ms.map Prod.fst).Sublist (fields.map Prod.fst)
      ∧ ((fields.map Prod.fst).Nodup → ∀ name id, Members.find? name fields = some id →
        s.fillSlot expand (Members.find? name given) id (path ++ [.field name])
          = .ok (Members.find? name ms)) := by
  induction fields generalizing ms with
  | nil =>
    obtain rfl := Except.ok.inj h
    exact ⟨.slnil, fun _ name id hfind => (nomatch hfind)⟩
  | cons field rest ih =>
    obtain ⟨key, keyId⟩ := field
    obtain ⟨value?, hvalue, h⟩ := bind_eq_ok.1 h
    obtain ⟨members, hmembers, h⟩ := bind_eq_ok.1 h
    obtain ⟨hsublist, hslots⟩ := ih hmembers
    -- The slot adds a member or leaves the field out.
    have hout : (ms.map Prod.fst).Sublist (key :: rest.map Prod.fst)
        ∧ (key ∉ rest.map Prod.fst → Members.find? key ms = value?)
        ∧ ∀ name, name ≠ key → Members.find? name ms = Members.find? name members := by
      cases value? with
      | none =>
        obtain rfl := Except.ok.inj h
        refine ⟨hsublist.cons key, fun hkey => ?_, fun name hne => rfl⟩
        exact Members.find?_eq_none_iff.2 fun hmem => hkey (hsublist.subset hmem)
      | some value =>
        obtain rfl := Except.ok.inj h
        exact ⟨hsublist.cons_cons key, fun _ => if_pos rfl, fun name hne => if_neg (Ne.symm hne)⟩
    obtain ⟨hnames, hself, hothers⟩ := hout
    refine ⟨hnames, fun hnodup name id hfind => ?_⟩
    obtain ⟨hkey, hrest⟩ := List.nodup_cons.1 hnodup
    by_cases hname : name = key
    · subst hname
      obtain rfl : keyId = id := Option.some.inj ((if_pos rfl).symm.trans hfind)
      rw [hself hkey]
      exact hvalue
    · rw [hothers name hname]
      exact hslots hrest name id (by rwa [Members.find?, if_neg (Ne.symm hname)] at hfind)

theorem find?_checkMembers (expand : Json → Check) (name : String) (ms : List (String × Json)) :
    Members.find? name (s.checkMembers expand ms)
      = (Members.find? name ms).map fun value => (value, s.check expand value) := by
  induction ms with
  | nil => rw [checkMembers]; rfl
  | cons pair rest ih =>
    obtain ⟨key, value⟩ := pair
    rw [checkMembers, Members.find?, Members.find?]
    split
    · rfl
    · exact ih

section

variable {P : TypeId → Json → Prop} {expand : Json → Check}

mutual

/-- What holds of what defaults are expanded to, and of a value if it holds of its parts, holds of
every value that is let through. -/
theorem check_gives (hs : s.WellFormed) (hP : s.Composes P)
    (hexpand : ∀ value, Gives P (expand value)) : ∀ value, Gives P (s.check expand value)
  | .array xs => by
    intro id path out h
    rw [check] at h
    dsimp only at h
    split at h
    · rename_i items hkind
      obtain ⟨ys, hys, rfl⟩ := map_eq_ok.1 h
      exact hP.array hkind (fillElements_gives hP hexpand (checkItems_gives hs hP hexpand xs) hys)
    · exact checkLeaf_gives hP _ id path out h
  | .object ms => by
    intro id path out h
    rw [check] at h
    dsimp only at h
    split at h
    · rename_i type hkind
      obtain ⟨ns, hns, rfl⟩ := map_eq_ok.1 h
      obtain ⟨hsublist, hslots⟩ := fillFields_eq_ok hns
      have hnodup := hs.fields_nodup hkind
      refine hP.object hkind hsublist fun name field hfind => ?_
      refine fillSlot_gives hP hexpand (fun value check heq => ?_) (hslots hnodup name field hfind)
      exact checkMembers_gives hs hP hexpand ms name value check heq
    · exact checkLeaf_gives hP _ id path out h
  | .null | .bool _ | .number _ | .string _ => by
    rw [check]
    · exact checkLeaf_gives hP _
    · exact fun items heq => (nomatch heq)
    · exact fun ms heq => (nomatch heq)

theorem checkItems_gives (hs : s.WellFormed) (hP : s.Composes P)
    (hexpand : ∀ value, Gives P (expand value)) :
    ∀ xs, ∀ pair ∈ s.checkItems expand xs, Gives P pair.2
  | [] => fun pair hpair => by
    rw [checkItems] at hpair
    exact absurd hpair List.not_mem_nil
  | x :: rest => fun pair hpair => by
    rw [checkItems] at hpair
    rcases List.mem_cons.1 hpair with rfl | hpair
    · exact check_gives hs hP hexpand x
    · exact checkItems_gives hs hP hexpand rest pair hpair

theorem checkMembers_gives (hs : s.WellFormed) (hP : s.Composes P)
    (hexpand : ∀ value, Gives P (expand value)) :
    ∀ ms name value check, Members.find? name (s.checkMembers expand ms) = some (value, check) →
      Gives P check
  | [], name, value, check, h => by
    rw [checkMembers] at h
    exact nomatch h
  | (key, first) :: rest, name, value, check, h => by
    rw [checkMembers, Members.find?] at h
    split at h
    · obtain ⟨rfl, rfl⟩ := Prod.mk.inj (Option.some.inj h)
      exact check_gives hs hP hexpand first
    · exact checkMembers_gives hs hP hexpand rest name value check h

end

theorem expandDefault_gives (hs : s.WellFormed) (hP : s.Composes P) (depth : Nat) :
    ∀ value, Gives P (s.expandDefault depth value) := by
  induction depth with
  | zero => exact fun value id path out h => nomatch h
  | succ depth ih => exact fun value id path out h => check_gives hs hP ih value id path out h

theorem instantiate_gives (hs : s.WellFormed) (hP : s.Composes P) (value : Json) :
    Gives P fun id path => s.instantiate id value path :=
  check_gives hs hP (expandDefault_gives hs hP s.size) value

end

theorem conforms_composes (hs : s.WellFormed) : s.Composes s.Conforms where
  any := .any
  string := .string
  boolean := .boolean
  number := .number
  array hkind hxs := by
    refine (Conforms.array_iff hkind).2 fun x hx => ?_
    obtain ⟨value?, hfits, rfl⟩ := hxs x hx
    exact Fits.getD hfits
  object := by
    intro id type ms hkind hsublist hfits
    have hnodup := hs.fields_nodup hkind
    exact (Conforms.object_iff hkind).2
      ⟨hnodup.sublist hsublist, fun name hname => hsublist.subset hname, hfits⟩

theorem instantiate_conforms (hs : s.WellFormed) {id : TypeId} {given value : Json} {path : Path}
    (h : s.instantiate id given path = .ok value) : s.Conforms id value :=
  instantiate_gives hs (conforms_composes hs) given id path value h

theorem instantiateSlot_fits (hs : s.WellFormed) {id : TypeId} {given? value? : Option Json}
    {path : Path} (h : s.instantiateSlot id given? path = .ok value?) : s.Fits id value? := by
  have hP := conforms_composes hs
  have hexpand := expandDefault_gives hs hP s.size
  refine fillSlot_gives hP hexpand (fun value check heq => ?_) h
  obtain ⟨given, -, heq⟩ := Option.map_eq_some_iff.1 heq
  obtain ⟨rfl, rfl⟩ := Prod.mk.inj heq
  exact check_gives hs hP hexpand given

/-! ## What comes back unchanged -/

theorem check_of_any {expand : Json → Check} {id : TypeId} {declared : String}
    (hkind : s.kind id = .any declared) (value : Json) (path : Path) :
    s.check expand value id path = .ok value := by
  cases value <;> simp only [check, checkLeaf, hkind]

theorem fillAbsent_of_mayBeAbsent {id : TypeId} (h : s.MayBeAbsent id) (expand : Json → Check)
    (value? : Option Json) (path : Path) :
    s.fillAbsent expand value? id path = .ok (if (s.kind id).isAny then value? else none) := by
  unfold fillAbsent
  split
  · rfl
  · rename_i hany
    rcases h with h | h
    · exact absurd h hany
    · cases hpresence : s.presence id with
      | optional => rfl
      | required | defaulted =>
        rw [hpresence] at h
        exact nomatch h

theorem fillSlot_some (expand : Json → Check) (value : Json) (check : Check) (id : TypeId)
    (path : Path) : s.fillSlot expand (some (value, check)) id path
      = if value.isNull then s.fillAbsent expand (some value) id path
        else some <$> check id path := rfl

/-- A field whose slot is filled as its type asks for is filled with the like again. -/
theorem fillSlot_of_fits {R : Json → Json → Prop} (hR : R .null .null) {expand : Json → Check}
    {id : TypeId} {path : Path} {value? : Option Json} (hfits : s.Fits id value?)
    (hcheck : ∀ value, value? = some value →
      ∃ out, s.check expand value id path = .ok out ∧ R out value) :
    ∃ out?, s.fillSlot expand (value?.map fun value => (value, s.check expand value)) id path
        = .ok out? ∧ Option.Rel R out? value? := by
  cases value? with
  | none =>
    refine ⟨none, ?_, .none⟩
    show s.fillAbsent expand none id path = .ok none
    rw [fillAbsent_of_mayBeAbsent hfits, ite_self]
  | some value =>
    rw [Option.map_some, fillSlot_some]
    cases hnull : value.isNull with
    | true =>
      obtain rfl := Json.eq_null_of_isNull hnull
      have hany := Conforms.isAny_eq_true hfits hnull
      refine ⟨some .null, ?_, .some hR⟩
      rw [if_pos rfl, fillAbsent_of_mayBeAbsent (.inl hany), if_pos hany]
    | false =>
      obtain ⟨out, hout, hsame⟩ := hcheck value rfl
      refine ⟨some out, ?_, .some hsame⟩
      rw [if_neg Bool.false_ne_true, hout]
      rfl

theorem fillElements_of_conforms {R : Json → Json → Prop} (hR : R .null .null)
    {expand : Json → Check} {items : TypeId} {xs : List Json}
    (hcheck : ∀ x ∈ xs, x.isNull = false → ∀ path,
      ∃ out, s.check expand x items path = .ok out ∧ R out x)
    (hnulls : ∀ x ∈ xs, x.isNull = true → s.MayBeAbsent items) (path : Path) (index : Nat) :
    ∃ ys, s.fillElements expand items path index (s.checkItems expand xs) = .ok ys
      ∧ List.Forall₂ R ys xs := by
  induction xs generalizing index with
  | nil =>
    rw [checkItems]
    exact ⟨[], rfl, .nil⟩
  | cons x rest ih =>
    obtain ⟨ys, hys, hsame⟩ := ih (fun y hy => hcheck y (List.mem_cons_of_mem x hy))
      (fun y hy => hnulls y (List.mem_cons_of_mem x hy)) (index + 1)
    have hfirst : ∃ out?, s.fillSlot expand (some (x, s.check expand x)) items
        (path ++ [.index index]) = .ok out? ∧ R (out?.getD .null) x := by
      rw [fillSlot_some]
      cases hnull : x.isNull with
      | true =>
        rw [if_pos rfl, fillAbsent_of_mayBeAbsent (hnulls x List.mem_cons_self hnull)]
        obtain rfl := Json.eq_null_of_isNull hnull
        refine ⟨_, rfl, ?_⟩
        split <;> exact hR
      | false =>
        obtain ⟨out, hout, hsame⟩ := hcheck x List.mem_cons_self hnull (path ++ [.index index])
        refine ⟨some out, ?_, hsame⟩
        rw [if_neg Bool.false_ne_true, hout]
        rfl
    obtain ⟨out?, hout, hfirst⟩ := hfirst
    refine ⟨out?.getD .null :: ys, ?_, .cons hfirst hsame⟩
    rw [checkItems]
    exact bind_eq_ok.2 ⟨out?, hout, bind_eq_ok.2 ⟨ys, hys, rfl⟩⟩

theorem fillFields_isOk {expand : Json → Check} {given : Members (Json × Check)} {path : Path}
    {fields : List (String × TypeId)}
    (hslots : ∀ field ∈ fields, ∃ out?,
      s.fillSlot expand (Members.find? field.1 given) field.2 (path ++ [.field field.1])
      = .ok out?) :
    ∃ ms, s.fillFields expand given path fields = .ok ms := by
  induction fields with
  | nil => exact ⟨[], rfl⟩
  | cons field rest ih =>
    obtain ⟨name, id⟩ := field
    obtain ⟨ms, hms⟩ := ih fun other hother => hslots other (List.mem_cons_of_mem _ hother)
    obtain ⟨out?, hout⟩ := hslots (name, id) List.mem_cons_self
    cases out? with
    | none => exact ⟨ms, bind_eq_ok.2 ⟨none, hout, bind_eq_ok.2 ⟨ms, hms, rfl⟩⟩⟩
    | some value =>
      exact ⟨(name, value) :: ms, bind_eq_ok.2 ⟨some value, hout, bind_eq_ok.2 ⟨ms, hms, rfl⟩⟩⟩

/-- A value that conforms passes the check, whatever defaults are expanded to. -/
theorem Conforms.check (hs : s.WellFormed) {id : TypeId} {j : Json} (h : s.Conforms id j)
    (expand : Json → Check) (path : Path) :
    ∃ out, s.check expand j id path = .ok out ∧ Reordered out j := by
  induction h generalizing path with
  | any hkind j => exact ⟨j, check_of_any hkind j path, .refl j⟩
  | string hkind text =>
    refine ⟨_, ?_, .refl _⟩
    simp only [Schema.check, checkLeaf, hkind]
  | boolean hkind b =>
    refine ⟨_, ?_, .refl _⟩
    simp only [Schema.check, checkLeaf, hkind]
  | number hkind n hrules =>
    refine ⟨_, ?_, .refl _⟩
    have hnone := List.find?_eq_none.2 fun rule hrule => Bool.eq_false_iff.1 (hrules rule hrule)
    simp only [Schema.check, checkLeaf, hkind, hnone]
  | @array id items xs hkind hitems hnulls ih =>
    obtain ⟨ys, hys, hsame⟩ := fillElements_of_conforms (.refl .null) ih hnulls path 0
    refine ⟨.array ys, ?_, .of_forall₂ hsame⟩
    rw [Schema.check]
    simp only [hkind]
    exact map_eq_ok.2 ⟨ys, hys, rfl⟩
  | @object id type ms hkind hnodup hdeclared hmembers habsent ih =>
    have hfields := hs.fields_nodup hkind
    have hslots : ∀ name field, Members.find? name type.fields = some field → ∃ out?,
        s.fillSlot expand (Members.find? name (s.checkMembers expand ms)) field
            (path ++ [.field name]) = .ok out?
          ∧ Option.Rel Reordered out? (Members.find? name ms) := by
      intro name field hfind
      rw [find?_checkMembers]
      refine fillSlot_of_fits (.refl .null) ?_ fun value hvalue =>
        ih name field value hfind hvalue _
      cases hvalue : Members.find? name ms with
      | none => exact habsent name field hfind hvalue
      | some value => exact hmembers name field value hfind hvalue
    have hfilled : ∀ field ∈ type.fields, ∃ out?,
        s.fillSlot expand (Members.find? field.1 (s.checkMembers expand ms)) field.2
          (path ++ [.field field.1]) = .ok out? := by
      intro field hfield
      obtain ⟨out?, hout, -⟩ := hslots field.1 field.2 (Members.find?_of_mem hfields hfield)
      exact ⟨out?, hout⟩
    obtain ⟨ns, hns⟩ := fillFields_isOk hfilled
    obtain ⟨hsublist, hfilled⟩ := fillFields_eq_ok hns
    -- Names that are not declared stand on neither side, and each declared field comes back.
    have hsame : ∀ name, Option.Rel Reordered (Members.find? name ns) (Members.find? name ms) := by
      intro name
      cases hfind : Members.find? name type.fields with
      | none =>
        have hname := Members.find?_eq_none_iff.1 hfind
        rw [Members.find?_eq_none_iff.2 fun hmem => hname (hsublist.subset hmem),
          Members.find?_eq_none_iff.2 fun hmem => hname (hdeclared name hmem)]
        exact .none
      | some field =>
        obtain ⟨out?, hout, hsame⟩ := hslots name field hfind
        obtain rfl := Except.ok.inj ((hfilled hfields name field hfind).symm.trans hout)
        exact hsame
    refine ⟨.object ns, ?_, .object hnodup ?_ fun name v w hv hw => ?_⟩
    · rw [Schema.check]
      simp only [hkind]
      exact map_eq_ok.2 ⟨ns, hns, rfl⟩
    -- Both sides have the same names, each once.
    · refine (List.perm_ext_iff_of_nodup (hfields.sublist hsublist) hnodup).2 fun name => ?_
      rw [← not_iff_not, ← Members.find?_eq_none_iff, ← Members.find?_eq_none_iff]
      have hname := hsame name
      generalize Members.find? name ns = v? at hname ⊢
      generalize Members.find? name ms = w? at hname ⊢
      cases hname with
      | none => exact Iff.rfl
      | some => exact iff_of_false (Option.some_ne_none _) (Option.some_ne_none _)
    · have hname := hsame name
      rw [hv, hw] at hname
      cases hname with
      | some hvalue => exact hvalue

end Schema

end BoundView
