import BoundView.Members
import Mathlib.Data.List.Nodup

/-!
# Names of members

Which names a record has, before and after one of them is written or left out.
-/

namespace BoundView.Members

variable {α : Type}

theorem find?_eq_none_iff {name : String} {ms : Members α} :
    find? name ms = none ↔ name ∉ ms.map Prod.fst := by
  induction ms with
  | nil => simp
  | cons pair rest ih =>
    by_cases hk : pair.1 = name
    · simp [find?, hk]
    · simp [find?, hk, ih, Ne.symm hk]

theorem mem_names_of_find? {name : String} {value : α} {ms : Members α}
    (h : find? name ms = some value) : name ∈ ms.map Prod.fst := by
  by_contra hname
  rw [find?_eq_none_iff.2 hname] at h
  exact nomatch h

theorem mem_of_find? {name : String} {value : α} {ms : Members α} (h : find? name ms = some value) :
    (name, value) ∈ ms := by
  induction ms with
  | nil => exact nomatch h
  | cons pair rest ih =>
    rw [find?] at h
    split at h
    · rename_i hk
      obtain rfl := Option.some.inj h
      exact hk ▸ List.mem_cons_self
    · exact List.mem_cons_of_mem pair (ih h)

theorem exists_of_mem_names {name : String} {ms : Members α} (h : name ∈ ms.map Prod.fst) :
    ∃ value, find? name ms = some value := by
  cases hfind : find? name ms with
  | none => exact absurd h (find?_eq_none_iff.1 hfind)
  | some value => exact ⟨value, rfl⟩

theorem find?_of_mem {name : String} {value : α} {ms : Members α} (hnodup : (ms.map Prod.fst).Nodup)
    (h : (name, value) ∈ ms) : find? name ms = some value := by
  induction ms with
  | nil => exact absurd h List.not_mem_nil
  | cons pair rest ih =>
    rw [List.map_cons, List.nodup_cons] at hnodup
    rcases List.mem_cons.1 h with rfl | h
    · exact if_pos rfl
    · have hne : pair.1 ≠ name := by
        rintro rfl
        exact hnodup.1 (List.mem_map.2 ⟨(pair.1, value), h, rfl⟩)
      rw [find?, if_neg hne]
      exact ih hnodup.2 h

theorem find?_erase_of_ne {name other : String} (ms : Members α) (h : other ≠ name) :
    find? other (erase name ms) = find? other ms := by
  induction ms with
  | nil => rfl
  | cons pair rest ih =>
    by_cases hk : pair.1 = name
    · simp [erase, find?, hk, Ne.symm h]
    · simp [erase, find?, hk, ih]

theorem erase_sublist (name : String) (ms : Members α) : (erase name ms).Sublist ms := by
  induction ms with
  | nil => exact .slnil
  | cons pair rest ih =>
    rw [erase]
    split
    · exact List.sublist_cons_self pair rest
    · exact ih.cons_cons pair

theorem find?_erase_self {name : String} {ms : Members α} (hnodup : (ms.map Prod.fst).Nodup) :
    find? name (erase name ms) = none := by
  induction ms with
  | nil => rfl
  | cons pair rest ih =>
    rw [List.map_cons, List.nodup_cons] at hnodup
    rw [erase]
    split
    · rename_i hk
      exact find?_eq_none_iff.2 (hk ▸ hnodup.1)
    · rename_i hk
      rw [find?, if_neg hk]
      exact ih hnodup.2

theorem keys_erase {name : String} {ms : Members α} :
    keys (erase name ms) = (keys ms).erase name := by
  induction ms with
  | nil => rfl
  | cons pair rest ih =>
    show keys (if pair.1 = name then rest else pair :: erase name rest)
      = (pair.1 :: keys rest).erase name
    by_cases hk : pair.1 = name
    · rw [if_pos hk, hk, List.erase_cons_head]
    · rw [if_neg hk, List.erase_cons_tail (by simpa using hk), ← ih]
      rfl

theorem mem_names_set {name other : String} {value : α} {ms : Members α} :
    other ∈ (set name value ms).map Prod.fst ↔ other = name ∨ other ∈ ms.map Prod.fst := by
  by_cases h : other = name
  · subst h
    exact iff_of_true (mem_names_of_find? (find?_set_self other value ms)) (.inl rfl)
  · rw [← not_iff_not, ← find?_eq_none_iff, find?_set_of_ne value ms h, find?_eq_none_iff, not_or]
    exact ⟨fun hother => ⟨h, hother⟩, fun hother => hother.2⟩

theorem nodup_names_set {name : String} {value : α} {ms : Members α}
    (hnodup : (ms.map Prod.fst).Nodup) : ((set name value ms).map Prod.fst).Nodup := by
  induction ms with
  | nil => exact List.nodup_singleton name
  | cons pair rest ih =>
    rw [set]
    split
    · exact hnodup
    · rename_i hk
      rw [List.map_cons, List.nodup_cons] at hnodup ⊢
      refine ⟨fun hmem => ?_, ih hnodup.2⟩
      rcases mem_names_set.1 hmem with heq | hmem
      · exact hk heq
      · exact hnodup.1 hmem

theorem names_set {name : String} {v w : α} {ms ns : Members α}
    (h : ms.map Prod.fst = ns.map Prod.fst) :
    (set name v ms).map Prod.fst = (set name w ns).map Prod.fst := by
  induction ms generalizing ns with
  | nil =>
    obtain rfl := List.map_eq_nil_iff.1 h.symm
    rfl
  | cons pair rest ih =>
    obtain ⟨pair', rest', rfl, hfirst, hrest⟩ := List.map_eq_cons_iff.1 h.symm
    rw [set, set, hfirst]
    split
    · exact congrArg (pair.1 :: ·) hrest.symm
    · rw [List.map_cons, List.map_cons, ih hrest.symm]

theorem mem_set {name : String} {value : α} {ms : Members α} {pair : String × α}
    (h : pair ∈ set name value ms) : pair ∈ ms ∨ pair.2 = value := by
  induction ms with
  | nil => exact .inr (congrArg Prod.snd (List.mem_singleton.1 h))
  | cons first rest ih =>
    rw [set] at h
    split at h
    · rcases List.mem_cons.1 h with rfl | h
      · exact .inr rfl
      · exact .inl (List.mem_cons_of_mem first h)
    · rcases List.mem_cons.1 h with rfl | h
      · exact .inl List.mem_cons_self
      · exact (ih h).imp_left (List.mem_cons_of_mem first)

theorem set_of_find?_eq_none {name : String} {ms : Members α} (value : α)
    (h : find? name ms = none) : set name value ms = ms ++ [(name, value)] := by
  induction ms with
  | nil => rfl
  | cons pair rest ih =>
    rw [find?] at h
    split at h
    · cases h
    · rename_i hk
      rw [set, if_neg hk, ih h, List.cons_append]

/-- Records without a common name stand one behind the other. -/
theorem merge_of_nodup {ms ns : Members α} (hnodup : ((ms ++ ns).map Prod.fst).Nodup) :
    merge ms ns = ms ++ ns := by
  induction ns generalizing ms with
  | nil => exact (List.append_nil ms).symm
  | cons pair rest ih =>
    have hnone : find? pair.1 ms = none := by
      rw [find?_eq_none_iff]
      rw [List.map_append, List.map_cons, List.nodup_append] at hnodup
      exact fun hmem => hnodup.2.2 pair.1 hmem pair.1 List.mem_cons_self rfl
    have hset : set pair.1 pair.2 ms = ms ++ [pair] := set_of_find?_eq_none pair.2 hnone
    show merge (set pair.1 pair.2 ms) rest = _
    rw [List.append_cons] at hnodup
    rw [hset, ih hnodup, ← List.append_cons]

/-- Members without a repeated name are written as they are. -/
theorem ofList_of_nodup {ms : Members α} (h : (ms.map Prod.fst).Nodup) : ofList ms = ms := by
  rw [← List.nil_append ms] at h
  exact merge_of_nodup h

/-- What holds of the values of two records holds of those of both together. -/
theorem forall_mem_merge {P : α → Prop} {ms ns : Members α} (hms : ∀ pair ∈ ms, P pair.2)
    (hns : ∀ pair ∈ ns, P pair.2) : ∀ pair ∈ merge ms ns, P pair.2 := by
  induction ns generalizing ms with
  | nil => exact hms
  | cons pair rest ih =>
    rw [List.forall_mem_cons] at hns
    refine ih (fun other hother => ?_) hns.2
    rcases mem_set hother with hother | heq
    · exact hms other hother
    · exact heq ▸ hns.1

theorem find?_mapValues {β : Type} (f : α → β) (name : String) (ms : Members α) :
    find? name (mapValues f ms) = (find? name ms).map f := by
  induction ms with
  | nil => rfl
  | cons pair rest ih =>
    show find? name ((pair.1, f pair.2) :: mapValues f rest) = _
    rw [find?, find?]
    split
    · rfl
    · exact ih

theorem mapValues_erase {β : Type} (f : α → β) (name : String) (ms : Members α) :
    mapValues f (erase name ms) = erase name (mapValues f ms) := by
  induction ms with
  | nil => rfl
  | cons pair rest ih =>
    show mapValues f (erase name (pair :: rest))
      = erase name ((pair.1, f pair.2) :: mapValues f rest)
    rw [erase, erase]
    split
    · rfl
    · rw [← ih]
      rfl

theorem mapValues_set {β : Type} (f : α → β) (name : String) (value : α) (ms : Members α) :
    mapValues f (set name value ms) = set name (f value) (mapValues f ms) := by
  induction ms with
  | nil => rfl
  | cons pair rest ih =>
    obtain ⟨key, old⟩ := pair
    show mapValues f (set name value ((key, old) :: rest))
      = set name (f value) ((key, f old) :: mapValues f rest)
    rw [set, set]
    split
    · rfl
    · rw [← ih]
      rfl

theorem mapValues_merge {β : Type} (f : α → β) (ms ns : Members α) :
    mapValues f (merge ms ns) = merge (mapValues f ms) (mapValues f ns) := by
  induction ns generalizing ms with
  | nil => rfl
  | cons pair rest ih =>
    show mapValues f (merge (set pair.1 pair.2 ms) rest)
      = merge (set pair.1 (f pair.2) (mapValues f ms)) (mapValues f rest)
    rw [ih, mapValues_set]

/-! ## Records with the same names -/

variable {β : Type} {R : α → β → Prop} {ms : Members α} {ns : Members β}

theorem names_of_forall₂ (h : List.Forall₂ (fun p q => p.1 = q.1 ∧ R p.2 q.2) ms ns) :
    ms.map Prod.fst = ns.map Prod.fst := by
  induction h with
  | nil => rfl
  | cons hpair _ ih => rw [List.map_cons, List.map_cons, hpair.1, ih]

theorem find?_of_forall₂ (h : List.Forall₂ (fun p q => p.1 = q.1 ∧ R p.2 q.2) ms ns)
    {name : String} {v : α} {w : β} (hv : find? name ms = some v) (hw : find? name ns = some w) :
    R v w := by
  induction h with
  | nil => exact nomatch hv
  | @cons p q ms ns hpair _ ih =>
    rw [find?] at hv hw
    rw [← hpair.1] at hw
    split at hv
    · rename_i hname
      rw [if_pos hname] at hw
      obtain rfl := Option.some.inj hv
      obtain rfl := Option.some.inj hw
      exact hpair.2
    · rename_i hname
      rw [if_neg hname] at hw
      exact ih hv hw

theorem forall₂_set {name : String} {v : α} {w : β} (hvalue : R v w)
    (h : List.Forall₂ (fun p q => p.1 = q.1 ∧ R p.2 q.2) ms ns) :
    List.Forall₂ (fun p q => p.1 = q.1 ∧ R p.2 q.2) (set name v ms) (set name w ns) := by
  induction h with
  | nil => exact .cons ⟨rfl, hvalue⟩ .nil
  | @cons p q ms ns hpair hrest ih =>
    rw [set, set, ← hpair.1]
    split
    · exact .cons ⟨rfl, hvalue⟩ hrest
    · exact .cons ⟨rfl, hpair.2⟩ ih

/-- Of two lists with the same names the same members are kept. -/
theorem forall₂_ofList {ps : List (String × α)} {qs : List (String × β)}
    (h : List.Forall₂ (fun p q => p.1 = q.1 ∧ R p.2 q.2) ps qs) :
    List.Forall₂ (fun p q => p.1 = q.1 ∧ R p.2 q.2) (ofList ps) (ofList qs) := by
  suffices hfold : ∀ (ms : Members α) (ns : Members β),
      List.Forall₂ (fun p q => p.1 = q.1 ∧ R p.2 q.2) ms ns →
      List.Forall₂ (fun p q => p.1 = q.1 ∧ R p.2 q.2)
        (ps.foldl (fun ms pair => set pair.1 pair.2 ms) ms)
        (qs.foldl (fun ms pair => set pair.1 pair.2 ms) ns) from hfold [] [] .nil
  induction h with
  | nil => exact fun ms ns hms => hms
  | @cons p q ps qs hpair _ ih =>
    intro ms ns hms
    refine ih _ _ ?_
    dsimp only
    rw [← hpair.1]
    exact forall₂_set hpair.2 hms

end BoundView.Members
