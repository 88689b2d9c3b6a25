import BoundView.Proofs.Model.Reachable
import BoundView.Proofs.Schema.Defaults

/-!
# What is wrong with a value

`Schema.FaultBy` tells, by looking at types and at the value alone, which parts of a value its type
refuses.  An error of a check names such a part, and where there is one the check fails.  It sees
numbers in their binary64 form.
-/

namespace BoundView

open Outcome (bind_eq_error map_eq_error)

/-- Whether a value is of the kind of JSON that a type stands for. -/
def TypeKind.takes : TypeKind TypeId → Json → Bool
  | .any _, _ => true
  | .string, .string _ => true
  | .number _, .number _ => true
  | .boolean, .bool _ => true
  | .array _, .array _ => true
  | .object _, .object _ => true
  | _, _ => false

/-- Whether a container has a slot one step down in which nothing stands, or `null`: any member that
is not there is such a slot, but only an element that is there can be one. -/
def Json.Lacks : Json → Seg → Prop
  | .object ms, .field name => ∀ value, Members.find? name ms = some value → value.isNull = true
  | .array xs, .index i => ∃ x, xs[i]? = some x ∧ x.isNull = true
  | _, _ => False

theorem Json.Lacks.isNull_eq_false {j : Json} {seg : Seg} (h : j.Lacks seg) : j.isNull = false := by
  cases j with
  | null => cases seg <;> exact h.elim
  | bool | number | string | array | object => rfl

namespace Schema

/-- Something wrong with a value of a type: the path to it, and what it violates.  Which numbers
break a rule is left open. -/
inductive FaultBy (breaks : Json.Number → Rule → Prop) (s : Schema) (id : TypeId) (v : Json) :
    Path → Violation → Prop where
  | wrongKind {p : Path} {type : TypeId} {node : Json} (htype : s.typeAt id p = some type)
      (hnode : v.get? p = some node) (hnull : p = [] ∨ node.isNull = false)
      (hkind : (s.kind type).takes node = false) :
      FaultBy breaks s id v p (.wrongKind (s.kind type).name node.kind)
  | bound {p : Path} {type : TypeId} {n : Json.Number} {rules : List Rule} {rule : Rule}
      (htype : s.typeAt id p = some type) (hnode : v.get? p = some (.number n))
      (hkind : s.kind type = .number rules) (hrule : rule ∈ rules)
      (hbreaks : breaks n rule) : FaultBy breaks s id v p (.bound rule)
  | missing {p : Path} {seg : Seg} {type : TypeId} {container : Json}
      (htype : s.typeAt id (p ++ [seg]) = some type) (hcontainer : v.get? p = some container)
      (hlacks : container.Lacks seg) (hrequired : s.presence type = .required)
      (hknown : (s.kind type).isAny = false) : FaultBy breaks s id v (p ++ [seg]) .missing

/-- Something wrong that a check sees, which compares the binary64 forms of numbers. -/
abbrev Finding (s : Schema) : TypeId → Json → Path → Violation → Prop :=
  s.FaultBy fun n rule => rule.rejects n.toFloat = true

variable {breaks : Json.Number → Rule → Prop}

variable {s : Schema} {id child : TypeId} {v value : Json} {seg : Seg} {p path : Path}
  {violation : Violation}

/-! ## Broken bounds -/

theorem FaultBy.imp {breaks' : Json.Number → Rule → Prop} (h : s.FaultBy breaks id v p violation)
    (himp : ∀ n rule, v.get? p = some (.number n) → violation = .bound rule → breaks n rule →
      breaks' n rule) : s.FaultBy breaks' id v p violation := by
  cases h with
  | wrongKind htype hnode hnull hkind => exact .wrongKind htype hnode hnull hkind
  | bound htype hnode hkind hrule hbreaks =>
    exact .bound htype hnode hkind hrule (himp _ _ hnode rfl hbreaks)
  | missing htype hcontainer hlacks hrequired hknown =>
    exact .missing htype hcontainer hlacks hrequired hknown

theorem FaultBy.breaks_of_bound {n : Json.Number} {rule : Rule}
    (h : s.FaultBy breaks id v p (.bound rule)) (hn : v.get? p = some (.number n)) :
    breaks n rule := by
  cases h with
  | bound htype hnode hkind hrule hbreaks =>
    obtain rfl := Json.number.inj (Option.some.inj (hnode.symm.trans hn))
    exact hbreaks

/-! ## Faults of containers -/

/-- What is wrong with a part is wrong with the whole. -/
theorem FaultBy.below (htype : s.stepType id seg = some child) (hvalue : v.step? seg = some value)
    (hnull : value.isNull = false) (h : s.FaultBy breaks child value p violation) :
    s.FaultBy breaks id v (seg :: p) violation := by
  have htypes : ∀ q, s.typeAt id (seg :: q) = s.typeAt child q := by
    intro q
    rw [typeAt, htype]
    rfl
  have hnodes : ∀ q, v.get? (seg :: q) = value.get? q := by
    intro q
    rw [Json.get?, hvalue]
    rfl
  cases h with
  | @wrongKind _ type node hpart hnode hnull' hkind =>
    refine .wrongKind ((htypes p).trans hpart) ((hnodes p).trans hnode) (.inr ?_) hkind
    rcases hnull' with rfl | hnull'
    · obtain rfl := Option.some.inj hnode
      exact hnull
    · exact hnull'
  | bound hpart hnode hkind hrule hbreaks =>
    exact .bound ((htypes p).trans hpart) ((hnodes p).trans hnode) hkind hrule hbreaks
  | @missing q seg' type container hpart hcontainer hlacks hrequired hknown =>
    rw [← List.cons_append]
    exact .missing ((htypes _).trans hpart) ((hnodes q).trans hcontainer) hlacks hrequired hknown

theorem FaultBy.here (htype : s.stepType id seg = some child) (hlacks : v.Lacks seg)
    (hrequired : s.presence child = .required) (hknown : (s.kind child).isAny = false) :
    s.FaultBy breaks id v [seg] .missing := by
  have hpart : s.typeAt id ([] ++ [seg]) = some child := by
    rw [List.nil_append, typeAt, htype]
    rfl
  exact .missing hpart rfl hlacks hrequired hknown

/-- What is wrong at the value itself. -/
theorem FaultBy.nil_cases (h : s.FaultBy breaks id v [] violation) : (s.kind id).takes v = false
    ∨ ∃ n rules rule, v = .number n ∧ s.kind id = .number rules ∧ rule ∈ rules
      ∧ breaks n rule := by
  generalize hp : ([] : Path) = p at h
  cases h with
  | wrongKind htype hnode _ hkind =>
    subst hp
    obtain rfl := Option.some.inj htype
    obtain rfl := Option.some.inj hnode
    exact .inl hkind
  | bound htype hnode hkind hrule hbreaks =>
    subst hp
    obtain rfl := Option.some.inj htype
    obtain rfl := Option.some.inj hnode
    exact .inr ⟨_, _, _, rfl, hkind, hrule, hbreaks⟩
  | missing => simp at hp

/-- What is wrong further down is missing one step down, or it is wrong with the part there. -/
theorem FaultBy.cons_cases (h : s.FaultBy breaks id v (seg :: p) violation) :
    ∃ child, s.stepType id seg = some child
      ∧ ((v.Lacks seg ∧ s.presence child = .required ∧ (s.kind child).isAny = false)
        ∨ ∃ value, v.step? seg = some value ∧ value.isNull = false
          ∧ s.FaultBy breaks child value p violation) := by
  generalize hp : seg :: p = q at h
  cases h with
  | @wrongKind _ type node htype hnode hnull hkind =>
    subst hp
    obtain ⟨child, hchild, htype⟩ := Option.bind_eq_some_iff.1 htype
    obtain ⟨value, hvalue, hnode⟩ := Option.bind_eq_some_iff.1 hnode
    have hstands : node.isNull = false := hnull.resolve_left (List.cons_ne_nil seg p)
    have hfault : s.FaultBy breaks child value p (.wrongKind (s.kind type).name node.kind) :=
      .wrongKind htype hnode (.inr hstands) hkind
    exact ⟨child, hchild, .inr ⟨value, hvalue, Json.isNull_of_get? hnode hstands, hfault⟩⟩
  | bound htype hnode hkind hrule hbreaks =>
    subst hp
    obtain ⟨child, hchild, htype⟩ := Option.bind_eq_some_iff.1 htype
    obtain ⟨value, hvalue, hnode⟩ := Option.bind_eq_some_iff.1 hnode
    have hfault := FaultBy.bound htype hnode hkind hrule hbreaks
    exact ⟨child, hchild, .inr ⟨value, hvalue, Json.isNull_of_get? hnode rfl, hfault⟩⟩
  | @missing q last type container htype hcontainer hlacks hrequired hknown =>
    rw [← hp] at htype
    obtain ⟨child, hchild, htype⟩ := Option.bind_eq_some_iff.1 htype
    refine ⟨child, hchild, ?_⟩
    cases q with
    | nil =>
      obtain ⟨rfl, rfl⟩ := List.cons.inj hp
      obtain rfl := Option.some.inj hcontainer
      obtain rfl := Option.some.inj htype
      exact .inl ⟨hlacks, hrequired, hknown⟩
    | cons first rest =>
      obtain ⟨rfl, rfl⟩ := List.cons.inj hp
      obtain ⟨value, hvalue, hcontainer⟩ := Option.bind_eq_some_iff.1 hcontainer
      have hstands := Json.isNull_of_get? hcontainer hlacks.isNull_eq_false
      exact .inr ⟨value, hvalue, hstands, .missing htype hcontainer hlacks hrequired hknown⟩

/-! ## Errors of slots -/

variable {expand : Json → Check} {e : ValidationError}

theorem fillAbsent_eq_error (hexpand : ∀ value, s.presence id = .defaulted value →
    ∃ out, expand value id path = .ok out) {value? : Option Json}
    (h : s.fillAbsent expand value? id path = .error e) :
    e = ⟨path, .missing⟩ ∧ s.presence id = .required ∧ (s.kind id).isAny = false := by
  unfold fillAbsent at h
  split at h
  · exact nomatch h
  · rename_i hany
    split at h
    · rename_i value hpresence
      obtain ⟨out, hout⟩ := hexpand value hpresence
      rw [hout] at h
      exact nomatch h
    · exact nomatch h
    · rename_i hpresence
      exact ⟨(Except.error.inj h).symm, hpresence, Bool.eq_false_iff.2 hany⟩

theorem fillAbsent_required (hrequired : s.presence id = .required)
    (hknown : (s.kind id).isAny = false) (value? : Option Json) :
    s.fillAbsent expand value? id path = .error ⟨path, .missing⟩ := by
  rw [fillAbsent, hknown, hrequired]
  rfl

/-- Every element of an array that is filled in has its slot filled. -/
theorem fillElements_eq_ok {items : TypeId} {index : Nat} {given : List (Json × Check)}
    {ys : List Json} (h : s.fillElements expand items path index given = .ok ys) {i : Nat}
    {pair : Json × Check} (hpair : given[i]? = some pair) :
    ∃ out, s.fillSlot expand (some pair) items (path ++ [.index (index + i)]) = .ok out := by
  induction given generalizing index i ys with
  | nil => exact nomatch hpair
  | cons first rest ih =>
    obtain ⟨value?, hvalue, h⟩ := Outcome.bind_eq_ok.1 h
    obtain ⟨values, hvalues, -⟩ := Outcome.bind_eq_ok.1 h
    cases i with
    | zero =>
      obtain rfl := Option.some.inj hpair
      exact ⟨value?, hvalue⟩
    | succ i =>
      obtain ⟨out, hout⟩ := ih hvalues hpair
      rw [Nat.succ_add_eq_add_succ] at hout
      exact ⟨out, hout⟩

theorem fillElements_eq_error {items : TypeId} {index : Nat} {given : List (Json × Check)}
    (h : s.fillElements expand items path index given = .error e) :
    ∃ i pair, given[i]? = some pair
      ∧ s.fillSlot expand (some pair) items (path ++ [.index (index + i)]) = .error e := by
  induction given generalizing index with
  | nil => exact nomatch h
  | cons first rest ih =>
    rcases bind_eq_error.1 h with h | ⟨value?, -, h⟩
    · exact ⟨0, first, rfl, h⟩
    · rcases bind_eq_error.1 h with h | ⟨values, -, h⟩
      · obtain ⟨i, pair, hpair, hslot⟩ := ih h
        rw [Nat.succ_add_eq_add_succ] at hslot
        exact ⟨i + 1, pair, hpair, hslot⟩
      · exact nomatch h

theorem fillFields_eq_error {given : Members (Json × Check)} {fields : List (String × TypeId)}
    (h : s.fillFields expand given path fields = .error e) :
    ∃ name field, (name, field) ∈ fields
      ∧ s.fillSlot expand (Members.find? name given) field (path ++ [.field name]) = .error e := by
  induction fields with
  | nil => exact nomatch h
  | cons first rest ih =>
    obtain ⟨name, field⟩ := first
    rcases bind_eq_error.1 h with h | ⟨value?, -, h⟩
    · exact ⟨name, field, List.mem_cons_self, h⟩
    · rcases bind_eq_error.1 h with h | ⟨members, -, h⟩
      · obtain ⟨other, otherField, hmem, hslot⟩ := ih h
        exact ⟨other, otherField, List.mem_cons_of_mem _ hmem, hslot⟩
      · cases value? <;> exact nomatch h

theorem getElem?_checkItems (expand : Json → Check) (xs : List Json) (i : Nat) :
    (s.checkItems expand xs)[i]? = xs[i]?.map fun x => (x, s.check expand x) := by
  induction xs generalizing i with
  | nil =>
    rw [checkItems]
    rfl
  | cons x rest ih =>
    rw [checkItems]
    cases i with
    | zero => rfl
    | succ i => exact ih i

/-! ## Errors are faults -/

/-- A check whose errors all name something that is wrong with the value. -/
def Blames (s : Schema) (value : Json) (check : Check) : Prop :=
  ∀ id path e, check id path = .error e →
    ∃ p, s.Finding id value p e.violation ∧ e.path = path ++ p

theorem checkLeaf_blames (hs : s.WellFormed) (harray : ∀ items xs, s.kind id = .array items →
      v ≠ .array xs) (hobject : ∀ type ms, s.kind id = .object type → v ≠ .object ms)
    (h : s.checkLeaf v id path = .error e) :
    ∃ p, s.Finding id v p e.violation ∧ e.path = path ++ p := by
  have hwrong : (s.kind id).takes v = false → e = ⟨path, .wrongKind (s.kind id).name v.kind⟩ →
      ∃ p, s.Finding id v p e.violation ∧ e.path = path ++ p := by
    rintro htakes rfl
    exact ⟨[], .wrongKind rfl rfl (.inl rfl) htakes, (List.append_nil path).symm⟩
  have hrefs := hs.isRef_eq_false id
  unfold checkLeaf at h
  cases hkind : s.kind id with
  | any declared =>
    rw [hkind] at h
    exact nomatch h
  | ref target =>
    rw [hkind] at hrefs
    exact nomatch hrefs
  | string =>
    rw [hkind] at h hwrong
    cases v with
    | string => exact nomatch h
    | null | bool | number | array | object => exact hwrong rfl (Except.error.inj h).symm
  | boolean =>
    rw [hkind] at h hwrong
    cases v with
    | bool => exact nomatch h
    | null | string | number | array | object => exact hwrong rfl (Except.error.inj h).symm
  | array items =>
    rw [hkind] at h hwrong
    cases v with
    | array xs => exact absurd rfl (harray items xs hkind)
    | null | bool | number | string | object => exact hwrong rfl (Except.error.inj h).symm
  | object type =>
    rw [hkind] at h hwrong
    cases v with
    | object ms => exact absurd rfl (hobject type ms hkind)
    | null | bool | number | string | array => exact hwrong rfl (Except.error.inj h).symm
  | number rules =>
    rw [hkind] at h hwrong
    cases v with
    | null | bool | string | array | object => exact hwrong rfl (Except.error.inj h).symm
    | number n =>
      dsimp only at h
      split at h
      · rename_i rule hfind
        obtain rfl := Except.error.inj h
        have hrule := List.mem_of_find?_eq_some hfind
        have hrejects := List.find?_some hfind
        exact ⟨[], .bound rfl rfl hkind hrule hrejects, (List.append_nil path).symm⟩
      · exact nomatch h

/-- An error in a slot of a container tells of something that is wrong with the container. -/
theorem fillSlot_blames (hexpand : ∀ value, s.presence child = .defaulted value →
      ∃ out, expand value child (path ++ [seg]) = .ok out) {given? : Option (Json × Check)}
    (htype : s.stepType id seg = some child)
    (hgiven : ∀ pair, given? = some pair → v.step? seg = some pair.1 ∧ s.Blames pair.1 pair.2)
    (habsent : (∀ pair, given? = some pair → pair.1.isNull = true) → v.Lacks seg)
    (h : s.fillSlot expand given? child (path ++ [seg]) = .error e) :
    ∃ p, s.Finding id v p e.violation ∧ e.path = path ++ p := by
  have hmissing : ∀ value?, (∀ pair, given? = some pair → pair.1.isNull = true) →
      s.fillAbsent expand value? child (path ++ [seg]) = .error e →
      ∃ p, s.Finding id v p e.violation ∧ e.path = path ++ p := by
    intro value? hnull h
    obtain ⟨rfl, hrequired, hknown⟩ := fillAbsent_eq_error hexpand h
    exact ⟨[seg], .here htype (habsent hnull) hrequired hknown, rfl⟩
  cases given? with
  | none => exact hmissing none (fun _ heq => nomatch heq) h
  | some pair =>
    obtain ⟨value, check⟩ := pair
    obtain ⟨hvalue, hblames⟩ := hgiven _ rfl
    rw [fillSlot_some] at h
    split at h
    · rename_i hnull
      exact hmissing _ (fun pair heq => Option.some.inj heq ▸ hnull) h
    · rename_i hnull
      obtain ⟨p, hfault, hpath⟩ := hblames child _ e (map_eq_error.1 h)
      refine ⟨seg :: p, hfault.below htype hvalue (Bool.eq_false_iff.2 hnull), ?_⟩
      rw [hpath, List.append_assoc, List.singleton_append]

/-- Every default can be expanded, wherever it stands. -/
def Expands (s : Schema) (expand : Json → Check) : Prop :=
  ∀ id value, s.presence id = .defaulted value → ∀ path, ∃ out, expand value id path = .ok out

mutual

theorem check_blames (hs : s.WellFormed) (hexpand : s.Expands expand) :
    ∀ value, s.Blames value (s.check expand value)
  | .array xs => by
    intro id path e h
    rw [check] at h
    dsimp only at h
    split at h
    · rename_i items hkind
      obtain ⟨i, pair, hpair, hslot⟩ := fillElements_eq_error (map_eq_error.1 h)
      rw [Nat.zero_add] at hslot
      rw [getElem?_checkItems] at hpair
      obtain ⟨x, hx, rfl⟩ := Option.map_eq_some_iff.1 hpair
      have htype : s.stepType id (.index i) = some items := stepType_of_array hkind
      refine fillSlot_blames (fun value hvalue => hexpand items value hvalue _) htype
        (fun pair heq => ?_) (fun hnull => ⟨x, hx, hnull _ rfl⟩) hslot
      obtain rfl := Option.some.inj heq
      exact ⟨hx, checkItems_blames hs hexpand xs x (List.mem_of_getElem? hx)⟩
    · rename_i hne
      exact checkLeaf_blames hs (fun items _ hkind => absurd hkind (hne items))
        (fun _ _ _ heq => nomatch heq) h
  | .object ms => by
    intro id path e h
    rw [check] at h
    dsimp only at h
    split at h
    · rename_i type hkind
      obtain ⟨name, field, hmem, hslot⟩ := fillFields_eq_error (map_eq_error.1 h)
      rw [find?_checkMembers] at hslot
      have hnodup := hs.fields_nodup hkind
      have htype : s.stepType id (.field name) = some field :=
        stepType_of_find? hkind (Members.find?_of_mem hnodup hmem)
      refine fillSlot_blames (fun value hvalue => hexpand field value hvalue _) htype
        (fun pair heq => ?_) (fun hnull value hvalue => ?_) hslot
      · obtain ⟨value, hvalue, rfl⟩ := Option.map_eq_some_iff.1 heq
        exact ⟨hvalue, checkMembers_blames hs hexpand ms name value hvalue⟩
      · exact hnull (value, s.check expand value) (by rw [hvalue]; rfl)
    · rename_i hne
      exact checkLeaf_blames hs (fun _ _ _ heq => nomatch heq)
        (fun type _ hkind => absurd hkind (hne type)) h
  | .null | .bool _ | .number _ | .string _ => by
    intro id path e h
    rw [check] at h
    · exact checkLeaf_blames hs (fun _ _ _ heq => nomatch heq) (fun _ _ _ heq => nomatch heq) h
    all_goals exact fun _ heq => nomatch heq

theorem checkItems_blames (hs : s.WellFormed) (hexpand : s.Expands expand) :
    ∀ xs : List Json, ∀ x ∈ xs, s.Blames x (s.check expand x)
  | [] => fun _ hx => absurd hx List.not_mem_nil
  | first :: rest => fun x hx => by
    rcases List.mem_cons.1 hx with heq | hx
    · rw [heq]
      exact check_blames hs hexpand first
    · exact checkItems_blames hs hexpand rest x hx

theorem checkMembers_blames (hs : s.WellFormed) (hexpand : s.Expands expand) :
    ∀ ms name value, Members.find? name ms = some value → s.Blames value (s.check expand value)
  | [], _, _, h => nomatch h
  | (key, first) :: rest, name, value, h => by
    rw [Members.find?] at h
    split at h
    · obtain rfl := Option.some.inj h
      exact check_blames hs hexpand first
    · exact checkMembers_blames hs hexpand rest name value h

end

theorem Compiled.finding_of_error (h : s.Compiled) (he : s.instantiate id v path = .error e) :
    ∃ p, s.Finding id v p e.violation := by
  obtain ⟨p, hfault, -⟩ := check_blames h.wellFormed h.expandable v id path e he
  exact ⟨p, hfault⟩

/-! ## Faults are errors -/

theorem takes_of_check {out : Json} (h : s.check expand v id path = .ok out) :
    (s.kind id).takes v = true := by
  have hleaf : s.checkLeaf v id path = .ok out → (s.kind id).takes v = true := by
    intro h
    unfold checkLeaf at h
    cases hkind : s.kind id <;> rw [hkind] at h <;> cases v <;> first | rfl | exact nomatch h
  cases v with
  | null | bool | number | string =>
    rw [check] at h
    · exact hleaf h
    all_goals exact fun _ heq => nomatch heq
  | array xs =>
    rw [check] at h
    dsimp only at h
    split at h
    · rename_i items hkind
      rw [hkind]
      rfl
    · exact hleaf h
  | object ms =>
    rw [check] at h
    dsimp only at h
    split at h
    · rename_i type hkind
      rw [hkind]
      rfl
    · exact hleaf h

/-- Through a check that succeeds each slot is filled. -/
theorem fillSlot_of_check (hs : s.WellFormed) {out : Json} (htype : s.stepType id seg = some child)
    (h : s.check expand v id path = .ok out) :
    (∀ value, v.step? seg = some value → ∃ stored,
        s.fillSlot expand (some (value, s.check expand value)) child (path ++ [seg]) = .ok stored)
      ∧ ∀ name ms, seg = .field name → v = .object ms → Members.find? name ms = none →
        ∃ stored, s.fillSlot expand none child (path ++ [seg]) = .ok stored := by
  cases seg with
  | field name =>
    obtain ⟨type, hkind, hfind⟩ := stepType_field htype
    have htakes := takes_of_check h
    rw [hkind] at htakes
    cases v with
    | null | bool | number | string | array => exact nomatch htakes
    | object ms =>
      rw [check] at h
      simp only [hkind] at h
      obtain ⟨ns, hns, -⟩ := Outcome.map_eq_ok.1 h
      have hnodup := hs.fields_nodup hkind
      have hslot := (fillFields_eq_ok hns).2 hnodup name child hfind
      rw [find?_checkMembers] at hslot
      refine ⟨fun value hvalue => ⟨Members.find? name ns, ?_⟩, ?_⟩
      · rw [show Members.find? name ms = some value from hvalue] at hslot
        exact hslot
      · rintro name' ms' hname hms hnone
        obtain rfl := Seg.field.inj hname
        obtain rfl := Json.object.inj hms
        rw [hnone] at hslot
        exact ⟨_, hslot⟩
  | index i =>
    have hkind := stepType_index htype
    have htakes := takes_of_check h
    rw [hkind] at htakes
    cases v with
    | null | bool | number | string | object => exact nomatch htakes
    | array xs =>
      rw [check] at h
      simp only [hkind] at h
      obtain ⟨ys, hys, -⟩ := Outcome.map_eq_ok.1 h
      refine ⟨fun value hvalue => ?_, fun _ _ hseg => nomatch hseg⟩
      have hpair : (s.checkItems expand xs)[i]? = some (value, s.check expand value) := by
        rw [getElem?_checkItems, show xs[i]? = some value from hvalue]
        rfl
      have hslot := fillElements_eq_ok hys hpair
      rwa [Nat.zero_add] at hslot

/-- What is wrong with a value keeps it from passing the check. -/
theorem Finding.check_ne_ok (hs : s.WellFormed) (h : s.Finding id v p violation) (path : Path)
    (out : Json) : s.check expand v id path ≠ .ok out := by
  intro hcheck
  induction p generalizing id v path out with
  | nil =>
    rcases h.nil_cases with htakes | ⟨n, rules, rule, rfl, hkind, hrule, hrejects⟩
    · exact Bool.false_ne_true (htakes.symm.trans (takes_of_check hcheck))
    · rw [check] at hcheck
      · simp only [checkLeaf, hkind] at hcheck
        split at hcheck
        · cases hcheck
        · rename_i hnone
          exact List.find?_eq_none.1 hnone rule hrule hrejects
      all_goals simp
  | cons seg p ih =>
    obtain ⟨child, htype, hcases⟩ := h.cons_cases
    obtain ⟨hvalues, hnone⟩ := fillSlot_of_check hs htype hcheck
    rcases hcases with ⟨hlacks, hrequired, hknown⟩ | ⟨value, hvalue, hnull, hfault⟩
    · have hmissing : ∀ value?, s.fillAbsent expand value? child (path ++ [seg])
          = .error ⟨path ++ [seg], .missing⟩ := fillAbsent_required hrequired hknown
      -- The slot is empty, or `null` stands in it.
      have hnull : ∀ value, v.step? seg = some value → value.isNull = true → False := by
        intro value hvalue hnull
        obtain ⟨stored, hstored⟩ := hvalues value hvalue
        rw [fillSlot_some, if_pos hnull, hmissing] at hstored
        cases hstored
      cases v with
      | null | bool | number | string => cases seg <;> exact hlacks.elim
      | array xs =>
        cases seg with
        | field name => exact hlacks.elim
        | index i =>
          obtain ⟨x, hx, hxnull⟩ := hlacks
          exact hnull x hx hxnull
      | object ms =>
        cases seg with
        | index i => exact hlacks.elim
        | field name =>
          cases hfind : Members.find? name ms with
          | some value => exact hnull value hfind (hlacks value hfind)
          | none =>
            obtain ⟨stored, hstored⟩ := hnone name ms rfl rfl hfind
            cases (hmissing none).symm.trans hstored
    · obtain ⟨stored, hstored⟩ := hvalues value hvalue
      rw [fillSlot_some, hnull, if_neg Bool.false_ne_true] at hstored
      obtain ⟨filled, hfilled, -⟩ := Outcome.map_eq_ok.1 hstored
      exact ih hfault _ _ hfilled

/-! ## Empty slots -/

/-- A slot that has a default never fails for being empty. -/
theorem instantiateSlot_of_default (hexpandable : s.Expandable) {default : Json}
    {value? : Option Json} (hdefault : s.presence id = .defaulted default)
    (hnull : ∀ value, value? = some value → value.isNull = true) :
    ∃ stored, s.instantiateSlot id value? path = .ok stored := by
  obtain ⟨out, hout⟩ := hexpandable id default hdefault path
  have habsent : ∀ value?, ∃ stored,
      s.fillAbsent (s.expandDefault s.size) value? id path = .ok stored := by
    intro value?
    rw [fillAbsent, hdefault]
    split
    · exact ⟨value?, rfl⟩
    · refine ⟨some out, ?_⟩
      show some <$> s.expandDefault s.size default id path = _
      rw [hout]
      rfl
  cases value? with
  | none => exact habsent none
  | some value =>
    obtain ⟨stored, hstored⟩ := habsent (some value)
    refine ⟨stored, ?_⟩
    rw [instantiateSlot, Option.map_some, fillSlot_some, if_pos (hnull value rfl), hstored]

end Schema

end BoundView
