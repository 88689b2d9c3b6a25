import BoundView.IdMap

/-!
# Entries of tables

What a table holds after an entry was changed in place.  A table whose numbers ascend has one entry
for each of them, and stays one in which they ascend whatever is put in or taken out.
-/

namespace BoundView.IdMap

variable {α : Type} {id other : Nat} {m : IdMap α}

theorem find?_modify_self (f : α → α) : find? id (modify id f m) = (find? id m).map f := by
  induction m with
  | nil => rfl
  | cons entry rest ih =>
    show find? id ((entry.1, if entry.1 = id then f entry.2 else entry.2) :: modify id f rest) = _
    rw [find?, find?]
    split
    · rfl
    · exact ih

theorem find?_modify_of_ne (f : α → α) (h : other ≠ id) :
    find? other (modify id f m) = find? other m := by
  induction m with
  | nil => rfl
  | cons entry rest ih =>
    show find? other ((entry.1, if entry.1 = id then f entry.2 else entry.2) :: modify id f rest)
      = _
    rw [find?, find?]
    split
    · rename_i hkey
      rw [if_neg fun heq => h (hkey.symm.trans heq)]
    · exact ih

theorem mem_of_find? {value : α} (h : find? id m = some value) : (id, value) ∈ m := by
  induction m with
  | nil => exact nomatch h
  | cons entry rest ih =>
    rw [find?] at h
    split at h
    · rename_i hkey
      obtain rfl := Option.some.inj h
      exact hkey ▸ List.mem_cons_self
    · exact List.mem_cons_of_mem entry (ih h)

theorem contains_iff_mem_keys : contains id m = true ↔ id ∈ keys m := by
  unfold contains keys
  induction m with
  | nil => exact iff_of_false Bool.false_ne_true List.not_mem_nil
  | cons entry rest ih =>
    rw [find?, List.map_cons, List.mem_cons, ← ih]
    split
    · rename_i hkey
      exact iff_of_true rfl (.inl hkey.symm)
    · rename_i hkey
      exact (or_iff_right (Ne.symm hkey)).symm

theorem mem_keys_erase : other ∈ keys (erase id m) ↔ other ∈ keys m ∧ other ≠ id := by
  simp only [keys, erase, List.mem_map, List.mem_filter, decide_eq_true_eq]
  constructor
  · rintro ⟨entry, ⟨hentry, hne⟩, rfl⟩
    exact ⟨⟨entry, hentry, rfl⟩, hne⟩
  · rintro ⟨⟨entry, hentry, rfl⟩, hne⟩
    exact ⟨entry, ⟨hentry, hne⟩, rfl⟩

theorem mem_keys_insert {value : α} :
    other ∈ keys (insert id value m) ↔ other = id ∨ other ∈ keys m := by
  rw [← contains_iff_mem_keys, ← contains_iff_mem_keys, contains, contains]
  by_cases h : other = id
  · rw [h, find?_insert_self]
    exact iff_of_true rfl (.inl rfl)
  · rw [find?_insert_of_ne _ _ h]
    exact (or_iff_right h).symm

/-! ## Ascending numbers -/

/-- The numbers of a table ascend. -/
def Sorted (m : IdMap α) : Prop :=
  (keys m).Pairwise (· < ·)

theorem sorted_erase (h : Sorted m) : Sorted (erase id m) := by
  have hsublist : (keys (erase id m)).Sublist (keys m) := List.filter_sublist.map Prod.fst
  exact List.Pairwise.sublist hsublist h

theorem sorted_insert {value : α} (h : Sorted m) : Sorted (insert id value m) := by
  induction m with
  | nil => exact List.pairwise_singleton _ _
  | cons entry rest ih =>
    obtain ⟨hfirst, hrest⟩ := List.pairwise_cons.1 h
    rw [insert]
    split
    · rename_i hlt
      refine List.pairwise_cons.2 ⟨fun key hkey => ?_, h⟩
      rcases List.mem_cons.1 hkey with rfl | hkey
      · exact hlt
      · exact Nat.lt_trans hlt (hfirst key hkey)
    · rename_i hlt
      split
      · rename_i heq
        exact List.pairwise_cons.2 ⟨heq ▸ hfirst, hrest⟩
      · rename_i hne
        refine List.pairwise_cons.2 ⟨fun key hkey => ?_, ih hrest⟩
        rcases mem_keys_insert.1 hkey with rfl | hkey
        · omega
        · exact hfirst key hkey

/-- A number has no entry but the one that is found. -/
theorem find?_of_mem {value : α} (hsorted : Sorted m) (h : (id, value) ∈ m) :
    find? id m = some value := by
  induction m with
  | nil => exact absurd h List.not_mem_nil
  | cons entry rest ih =>
    obtain ⟨hfirst, hrest⟩ := List.pairwise_cons.1 hsorted
    rcases List.mem_cons.1 h with rfl | h
    · exact if_pos rfl
    · have hlt : entry.1 < id := hfirst id (List.mem_map.2 ⟨(id, value), h, rfl⟩)
      rw [find?, if_neg (Nat.ne_of_lt hlt)]
      exact ih hrest h

end BoundView.IdMap
