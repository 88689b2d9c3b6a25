import BoundView.Schema.Minimal
import BoundView.Proofs.Schema.Layout
import Mathlib.Data.Finset.Card
import Mathlib.Order.Monotone.Basic

/-!
# What comes to an end

A schema follows references, and nests minimal values, at most so often as it has types.  Main
statements: a chain of references that ends does so within that many steps; types that need one
another are never dropped by the search for endless objects; and if the search is left with none,
every minimal value is complete.
-/

namespace BoundView.Schema

/-! ## Rounds -/

/-- Of sets of numbers below `n`, each within the next one, that stand still once they do not grow,
none has more than the one after `n` rounds. -/
theorem subset_of_rounds {A : Nat → Finset Nat} {n : Nat} (hgrows : ∀ d, A d ⊆ A (d + 1))
    (hbound : ∀ d, A d ⊆ Finset.range n)
    (hstops : ∀ d, A (d + 1) ⊆ A d → A (d + 2) ⊆ A (d + 1)) (d : Nat) : A d ⊆ A n := by
  have hgrow : Monotone A := monotone_nat_of_le_succ hgrows
  rcases Nat.le_total d n with hle | hle
  · exact hgrow hle
  have hmono : Monotone fun d => (A d).card := fun d d' hle => Finset.card_le_card (hgrow hle)
  have hcard : ∀ d, (A d).card ≤ n := by
    intro d
    have hle := Finset.card_le_card (hbound d)
    rwa [Finset.card_range] at hle
  have hstill : ∀ d, (A d).card = (A (d + 1)).card → (A (d + 1)).card = (A (d + 2)).card := by
    intro d heq
    have hsame : A d = A (d + 1) :=
      Finset.eq_of_subset_of_card_le (hgrows d) (Nat.le_of_eq heq.symm)
    have hnext := hstops d (hsame ▸ Finset.Subset.refl _)
    rw [Finset.Subset.antisymm hnext (hgrows (d + 1))]
  have hlast : (A d).card = (A n).card := by
    rw [Nat.stabilises_of_monotone hmono hcard hstill hle,
      Nat.stabilises_of_monotone hmono hcard hstill (Nat.le_refl n)]
  exact (Finset.eq_of_subset_of_card_le (hgrow hle) (Nat.le_of_eq hlast)).symm ▸
    Finset.Subset.refl _

variable {s : Schema} {id : TypeId}

/-! ## Chains of references -/

/-- Whether so many references lead from a type to one that is no reference. -/
def Ends (s : Schema) (n : Nat) (id : TypeId) : Prop :=
  (s.descriptor (s.follow n id)).kind.isRef = false

instance (n : Nat) (id : TypeId) : Decidable (s.Ends n id) :=
  inferInstanceAs (Decidable (_ = _))

theorem follow_of_isRef {n : Nat} (h : (s.descriptor id).kind.isRef = false) :
    s.follow n id = id := by
  cases n with
  | zero => rfl
  | succ n =>
    rw [follow]
    split
    · rename_i target hkind
      rw [hkind] at h
      cases h
    · rfl

theorem follow_succ_of_ref {n target : Nat} (h : (s.descriptor id).kind = .ref target) :
    s.follow (n + 1) id = s.follow n target := by
  rw [follow, h]

theorem follow_succ (n id : Nat) : s.follow (n + 1) id = s.follow 1 (s.follow n id) := by
  induction n generalizing id with
  | zero => rfl
  | succ n ih =>
    cases hkind : (s.descriptor id).kind with
    | ref target => rw [follow_succ_of_ref hkind, follow_succ_of_ref hkind, ih]
    | string | number | boolean | array | object | any =>
      have hno : (s.descriptor id).kind.isRef = false := by rw [hkind]; rfl
      rw [follow_of_isRef hno, follow_of_isRef hno, follow_of_isRef hno]

theorem Ends.follow_eq {n m : Nat} (h : s.Ends n id) (hle : n ≤ m) :
    s.follow m id = s.follow n id := by
  induction hle with
  | refl => rfl
  | step _ ih => rw [follow_succ, ih, follow_of_isRef h]

theorem Ends.mono {n m : Nat} (h : s.Ends n id) (hle : n ≤ m) : s.Ends m id := by
  rw [Ends, h.follow_eq hle]
  exact h

/-- The types from which so many references lead to an end. -/
def ending (s : Schema) (n : Nat) : Finset Nat :=
  (Finset.range s.size).filter (s.Ends n)

theorem mem_ending {n : Nat} : id ∈ s.ending n ↔ id < s.size ∧ s.Ends n id := by
  rw [ending, Finset.mem_filter, Finset.mem_range]

theorem ending_succ (n : Nat) : s.ending n ⊆ s.ending (n + 1) := by
  intro id hid
  obtain ⟨hlt, hends⟩ := mem_ending.1 hid
  exact mem_ending.2 ⟨hlt, hends.mono (Nat.le_succ n)⟩

/-- Once no more chains come to an end, none of the others ever does. -/
theorem ending_stops {n : Nat} (h : s.ending (n + 1) ⊆ s.ending n) :
    s.ending (n + 2) ⊆ s.ending (n + 1) := by
  intro id hid
  obtain ⟨hlt, hends⟩ := mem_ending.1 hid
  refine mem_ending.2 ⟨hlt, ?_⟩
  cases hkind : (s.descriptor id).kind with
  | ref target =>
    -- The next type of the chain ends one round earlier, and so it did before.
    rw [Ends, follow_succ_of_ref hkind] at hends ⊢
    by_cases htarget : target < s.size
    · exact (mem_ending.1 (h (mem_ending.2 ⟨htarget, hends⟩))).2
    · rw [follow_of_le s n target (Nat.le_of_not_lt htarget)]
      rwa [follow_of_le s (n + 1) target (Nat.le_of_not_lt htarget)] at hends
  | string | number | boolean | array | object | any =>
    have hno : (s.descriptor id).kind.isRef = false := by rw [hkind]; rfl
    rw [Ends, follow_of_isRef hno]
    exact hno

/-- A chain that ends does so within as many references as there are types. -/
theorem Ends.size {n : Nat} (h : s.Ends n id) : s.Ends s.size id := by
  by_cases hid : id < s.size
  · have hbound : ∀ n, s.ending n ⊆ Finset.range s.size := fun n => Finset.filter_subset _ _
    have hall := subset_of_rounds ending_succ hbound (fun n => ending_stops) n
    exact (mem_ending.1 (hall (mem_ending.2 ⟨hid, h⟩))).2
  · have hle := Nat.le_of_not_lt hid
    rw [Ends, follow_of_le s _ id hle] at h ⊢
    exact h

theorem Ends.resolve_eq {n : Nat} (h : s.Ends n id) : s.resolve id = s.follow n id := by
  have hsize := h.size
  rw [resolve, hsize.follow_eq (Nat.le_succ _)]
  rcases Nat.le_total n s.size with hle | hle
  · exact h.follow_eq hle
  · exact (hsize.follow_eq hle).symm

theorem firstCircular?_eq_none : s.firstCircular? = none ↔ ∀ id, (s.kind id).isRef = false := by
  rw [firstCircular?, List.find?_eq_none]
  constructor
  · intro h id
    by_cases hid : id < s.size
    · exact Bool.eq_false_iff.2 (h id (List.mem_range.2 hid))
    · rw [kind_of_le s id (Nat.le_of_not_lt hid)]
      rfl
  · intro h id _
    exact Bool.eq_false_iff.1 (h id)

theorem kind_of_isRef (h : (s.descriptor id).kind.isRef = false) :
    s.kind id = (s.descriptor id).kind := by
  rw [kind, resolve, follow_of_isRef h]

/-! ## Types that need one another -/

theorem needsOneOf_mono {ids ids' : List TypeId} (hsub : ids ⊆ ids')
    (h : s.needsOneOf ids id = true) : s.needsOneOf ids' id = true := by
  unfold needsOneOf at h ⊢
  split at h
  · obtain ⟨part, hpart, hmem⟩ := List.any_eq_true.1 h
    rw [List.contains_iff_mem] at hmem
    exact List.any_eq_true.2 ⟨part, hpart, List.contains_iff_mem.2 (hsub hmem)⟩
  · cases h

/-- The search leaves the types in order, and each that it leaves needs another one. -/
theorem entangled_needs (ids : List TypeId) : (s.entangled ids).Sublist ids
    ∧ ∀ id ∈ s.entangled ids, s.needsOneOf (s.entangled ids) id = true := by
  induction ids using WellFounded.induction (measure List.length).wf with
  | _ ids ih =>
    rw [entangled]
    split
    · rename_i hlt
      obtain ⟨hsub, hneeds⟩ := ih _ hlt
      exact ⟨hsub.trans List.filter_sublist, hneeds⟩
    · rename_i hlt
      have hlength := Nat.le_antisymm (List.length_filter_le _ _) (Nat.le_of_not_lt hlt)
      exact ⟨List.Sublist.refl ids, List.length_filter_eq_length_iff.1 hlength⟩

/-- Types that need one another are never taken out. -/
theorem subset_entangled {closed ids : List TypeId}
    (hclosed : ∀ id ∈ closed, s.needsOneOf closed id = true) (hsub : closed ⊆ ids) :
    closed ⊆ s.entangled ids := by
  induction ids using WellFounded.induction (measure List.length).wf with
  | _ ids ih =>
    rw [entangled]
    split
    · rename_i hlt
      refine ih _ hlt fun id hid => ?_
      exact List.mem_filter.2 ⟨hsub hid, needsOneOf_mono hsub (hclosed id hid)⟩
    · exact hsub

theorem firstEndless?_eq_none :
    s.firstEndless? = none ↔ s.entangled (List.range s.size) = [] :=
  List.head?_eq_none_iff

theorem lt_size_of_object {type : ObjectType} (h : (s.descriptor id).kind = .object type) :
    id < s.size := by
  by_contra hle
  rw [descriptor_of_le s id (Nat.le_of_not_lt hle)] at h
  exact nomatch h

theorem needsOneOf_of_object {ids : List TypeId} {type : ObjectType} {field : String × TypeId}
    (hkind : (s.descriptor id).kind = .object type) (hfield : field ∈ type.fields)
    (hrequired : (s.presence field.2).isRequired = true) (hmem : s.resolve field.2 ∈ ids) :
    s.needsOneOf ids id = true := by
  rw [needsOneOf, hkind]
  refine List.any_eq_true.2 ⟨s.resolve field.2, ?_, List.contains_iff_mem.2 hmem⟩
  exact List.mem_map.2 ⟨field, List.mem_filter.2 ⟨hfield, hrequired⟩, rfl⟩

theorem exists_of_needsOneOf {ids : List TypeId} (h : s.needsOneOf ids id = true) :
    ∃ type field, (s.descriptor id).kind = .object type ∧ field ∈ type.fields
      ∧ (s.presence field.2).isRequired = true ∧ s.resolve field.2 ∈ ids := by
  unfold needsOneOf at h
  split at h
  · rename_i type hkind
    obtain ⟨part, hpart, hmem⟩ := List.any_eq_true.1 h
    obtain ⟨field, hfield, rfl⟩ := List.mem_map.1 hpart
    obtain ⟨hfield, hrequired⟩ := List.mem_filter.1 hfield
    exact ⟨type, field, hkind, hfield, hrequired, List.contains_iff_mem.1 hmem⟩
  · cases h

/-- Types that each hand on to a part they require are never taken out. -/
theorem mem_entangled_of_required {p : TypeId → Prop}
    (hp : ∀ id, p id → ∃ type field, (s.descriptor id).kind = .object type ∧ field ∈ type.fields
      ∧ (s.presence field.2).isRequired = true ∧ p (s.resolve field.2)) (hid : p id) :
    id ∈ s.entangled (List.range s.size) := by
  classical
  obtain ⟨closed, hmem⟩ : ∃ closed : List TypeId, ∀ id, id ∈ closed ↔ p id := by
    refine ⟨(List.range s.size).filter p, fun id => ?_⟩
    rw [List.mem_filter, List.mem_range, decide_eq_true_iff]
    refine and_iff_right_of_imp fun hid => ?_
    obtain ⟨type, -, hkind, -⟩ := hp id hid
    exact lt_size_of_object hkind
  have hneeds : ∀ id ∈ closed, s.needsOneOf closed id = true := by
    intro id hid
    obtain ⟨type, field, hkind, hfield, hrequired, hpart⟩ := hp id ((hmem id).1 hid)
    exact needsOneOf_of_object hkind hfield hrequired ((hmem _).2 hpart)
  have hlt : closed ⊆ List.range s.size := by
    intro id hid
    obtain ⟨type, -, hkind, -⟩ := hp id ((hmem id).1 hid)
    exact List.mem_range.2 (lt_size_of_object hkind)
  exact subset_entangled hneeds hlt ((hmem id).2 hid)

/-- Where no object is endless, nothing holds of types that each hand on to a part they require. -/
theorem not_of_required (h : s.firstEndless? = none) {p : TypeId → Prop}
    (hp : ∀ id, p id → ∃ type field, (s.descriptor id).kind = .object type ∧ field ∈ type.fields
      ∧ (s.presence field.2).isRequired = true ∧ p (s.resolve field.2)) (id : TypeId) : ¬p id := by
  intro hid
  have hmem := mem_entangled_of_required hp hid
  rw [firstEndless?_eq_none.1 h] at hmem
  exact List.not_mem_nil hmem

/-! ## Finite values -/

/-- Whether a type has a value with less than so many objects inside one another. -/
def FiniteWithin (s : Schema) : Nat → TypeId → Prop
  | 0, _ => False
  | depth + 1, id => ∀ type, s.kind id = .object type → ∀ field ∈ type.fields,
    (s.presence field.2).isRequired = true → s.FiniteWithin depth field.2

theorem FiniteWithin.succ {depth : Nat} (h : s.FiniteWithin depth id) :
    s.FiniteWithin (depth + 1) id := by
  induction depth generalizing id with
  | zero => exact h.elim
  | succ depth ih => exact fun type hkind field hfield hreq => ih (h type hkind field hfield hreq)

theorem finiteWithin_congr {depth : Nat} {id' : TypeId} (hkind : s.kind id = s.kind id') :
    s.FiniteWithin depth id ↔ s.FiniteWithin depth id' := by
  cases depth with
  | zero => exact Iff.rfl
  | succ depth => rw [FiniteWithin, FiniteWithin, hkind]

/-- Deeper than a type has its values nothing changes about the minimal one. -/
theorem FiniteWithin.minimalWithin_eq {depth depth' : Nat} (h : s.FiniteWithin depth id)
    (hle : depth ≤ depth') : s.minimalWithin depth' id = s.minimalWithin depth id := by
  induction depth generalizing id depth' with
  | zero => exact h.elim
  | succ depth ih =>
    obtain ⟨depth', rfl⟩ := Nat.exists_eq_succ_of_ne_zero (show depth' ≠ 0 by omega)
    rw [Nat.succ_eq_add_one, minimalWithin, minimalWithin]
    cases hkind : s.kind id with
    | string | number | boolean | array | ref | any => rfl
    | object type =>
      dsimp only
      refine congrArg Json.object (List.map_congr_left fun field hfield => ?_)
      obtain ⟨hfield, hrequired⟩ := List.mem_filter.1 hfield
      rw [ih (h type hkind field hfield hrequired) (Nat.le_of_succ_le_succ hle)]

open Classical in
/-- The types that have such a value. -/
noncomputable def finite (s : Schema) (depth : Nat) : Finset Nat :=
  (Finset.range s.size).filter (s.FiniteWithin depth)

theorem mem_finite {depth : Nat} :
    id ∈ s.finite depth ↔ id < s.size ∧ s.FiniteWithin depth id := by
  classical
  rw [finite, Finset.mem_filter, Finset.mem_range]

/-- Once no more types have finite values, none of the others ever has. -/
theorem finite_stops (hs : s.WellFormed) {depth : Nat}
    (h : s.finite (depth + 1) ⊆ s.finite depth) : s.finite (depth + 2) ⊆ s.finite (depth + 1) := by
  intro id hid
  obtain ⟨hlt, hfinite⟩ := mem_finite.1 hid
  refine mem_finite.2 ⟨hlt, fun type hkind field hfield hrequired => ?_⟩
  have hpart : field.2 < s.size := by
    have hparts := hs.part_lt id
    rw [hkind] at hparts
    exact hparts field.2 (List.mem_map_of_mem hfield)
  exact (mem_finite.1 (h (mem_finite.2 ⟨hpart, hfinite type hkind field hfield hrequired⟩))).2

theorem FiniteWithin.size (hs : s.WellFormed) {depth : Nat} (hid : id < s.size)
    (h : s.FiniteWithin depth id) : s.FiniteWithin s.size id := by
  have hgrows : ∀ d, s.finite d ⊆ s.finite (d + 1) := fun d id hid =>
    mem_finite.2 ⟨(mem_finite.1 hid).1, (mem_finite.1 hid).2.succ⟩
  have hbound : ∀ d, s.finite d ⊆ Finset.range s.size := fun d id hid =>
    Finset.mem_range.2 (mem_finite.1 hid).1
  have hall := subset_of_rounds hgrows hbound (fun d => finite_stops hs) depth
  exact (mem_finite.1 (hall (mem_finite.2 ⟨hid, h⟩))).2

/-- A type has a finite value if what it leads to has one. -/
theorem finiteWithin_resolve (hs : s.WellFormed) {depth : Nat} :
    s.FiniteWithin depth (s.resolve id) ↔ s.FiniteWithin depth id :=
  finiteWithin_congr (kind_of_isRef (hs.isRef_eq_false id))

theorem resolve_lt_size (hs : s.WellFormed) (hid : id < s.size)
    (h : ¬s.FiniteWithin s.size id) : s.resolve id < s.size := by
  by_contra hle
  have hfinite : s.FiniteWithin 1 (s.resolve id) := by
    intro type htype
    rw [kind_of_le s _ (Nat.le_of_not_lt hle)] at htype
    cases htype
  exact h (((finiteWithin_resolve hs).1 hfinite).size hs hid)

/-- Where no object is endless, every type has a finite value. -/
theorem finiteWithin_size (hs : s.WellFormed) (hendless : s.firstEndless? = none) {id : Nat}
    (hid : id < s.size) : s.FiniteWithin s.size id := by
  by_contra hnot
  -- Objects without finite values would require one another.
  refine not_of_required hendless (p := fun id => id < s.size ∧ ¬s.FiniteWithin s.size id
    ∧ (s.descriptor id).kind.isRef = false) (fun id hid => ?_) (s.resolve id) ?_
  · obtain ⟨hlt, hnot, hno⟩ := hid
    have hdeeper : ¬s.FiniteWithin (s.size + 1) id := fun h => hnot (h.size hs hlt)
    rw [FiniteWithin] at hdeeper
    push Not at hdeeper
    obtain ⟨type, hkind, field, hfield, hrequired, hpart⟩ := hdeeper
    have hparts := hs.part_lt id
    rw [hkind] at hparts
    have hlt' := hparts field.2 (List.mem_map_of_mem hfield)
    rw [kind_of_isRef hno] at hkind
    exact ⟨type, field, hkind, hfield, hrequired, resolve_lt_size hs hlt' hpart,
      mt (finiteWithin_resolve hs).1 hpart, hs.isRef_eq_false field.2⟩
  · exact ⟨resolve_lt_size hs hid hnot, mt (finiteWithin_resolve hs).1 hnot, hs.isRef_eq_false id⟩

/-- As many objects inside one another as there are types are enough for every minimal value. -/
theorem minimalValue_eq (hs : s.WellFormed) (hendless : s.firstEndless? = none) {id depth : Nat}
    (hid : id < s.size) (hle : s.size ≤ depth) : s.minimalValue id = s.minimalWithin depth id := by
  have hfinite := finiteWithin_size hs hendless hid
  rw [minimalValue, hfinite.minimalWithin_eq (Nat.le_succ _), hfinite.minimalWithin_eq hle]

end BoundView.Schema
