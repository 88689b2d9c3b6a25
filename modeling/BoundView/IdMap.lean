/-!
# Tables by number

Things that a runtime numbers are kept in a list sorted by their numbers, so that walking the table
visits them in the order in which they were created.
-/

namespace BoundView

abbrev IdMap (α : Type) := List (Nat × α)

namespace IdMap

variable {α : Type}

def find? (id : Nat) : IdMap α → Option α
  | [] => none
  | (key, value) :: rest => if key = id then some value else find? id rest

def contains (id : Nat) (m : IdMap α) : Bool :=
  (find? id m).isSome

def insert (id : Nat) (value : α) : IdMap α → IdMap α
  | [] => [(id, value)]
  | (key, old) :: rest =>
    if id < key then (id, value) :: (key, old) :: rest
    else if key = id then (id, value) :: rest
    else (key, old) :: insert id value rest

def erase (id : Nat) (m : IdMap α) : IdMap α :=
  m.filter fun entry => entry.1 ≠ id

def modify (id : Nat) (f : α → α) (m : IdMap α) : IdMap α :=
  m.map fun (key, value) => (key, if key = id then f value else value)

def keys (m : IdMap α) : List Nat :=
  m.map Prod.fst

@[simp] theorem find?_nil (id : Nat) : find? id ([] : IdMap α) = none := rfl

theorem find?_insert_self (id : Nat) (value : α) (m : IdMap α) :
    find? id (insert id value m) = some value := by
  induction m with
  | nil => simp [insert, find?]
  | cons entry rest ih =>
    simp only [insert]
    split
    · simp [find?]
    · split
      · simp [find?]
      · rename_i h
        simp [find?, h, ih]

theorem find?_insert_of_ne {id other : Nat} (value : α) (m : IdMap α) (h : other ≠ id) :
    find? other (insert id value m) = find? other m := by
  induction m with
  | nil => simp [insert, find?, Ne.symm h]
  | cons entry rest ih =>
    simp only [insert]
    split
    · simp [find?, Ne.symm h]
    · split
      · rename_i hk
        simp [find?, Ne.symm h, hk]
      · simp [find?, ih]

theorem find?_erase_self (id : Nat) (m : IdMap α) : find? id (erase id m) = none := by
  induction m with
  | nil => rfl
  | cons entry rest ih =>
    by_cases h : entry.1 = id
    · simpa [erase, h] using ih
    · simpa [erase, h, find?] using ih

theorem find?_erase_of_ne {id other : Nat} (m : IdMap α) (h : other ≠ id) :
    find? other (erase id m) = find? other m := by
  induction m with
  | nil => rfl
  | cons entry rest ih =>
    by_cases hk : entry.1 = id
    · have : entry.1 ≠ other := by omega
      simpa [erase, hk, find?, Ne.symm h] using ih
    · by_cases ho : entry.1 = other
      · have : entry.1 ≠ id := hk
        simp [erase, find?, ho, h]
      · simpa [erase, hk, find?, ho] using ih

theorem length_flatMap_erase_le {β : Type} (f : α → List β) (id : Nat) (m : IdMap α) :
    ((erase id m).flatMap fun entry => f entry.2).length
      ≤ (m.flatMap fun entry => f entry.2).length := by
  induction m with
  | nil => exact Nat.le_refl _
  | cons entry rest ih =>
    by_cases h : entry.1 = id
    · simpa [erase, h] using Nat.le_add_left_of_le ih
    · simpa [erase, h] using ih

/-- What belongs to something that is erased is counted no more. -/
theorem length_flatMap_erase_add_le {β : Type} (f : α → List β) {id : Nat} {value : α} {m : IdMap α}
    (h : find? id m = some value) :
    ((erase id m).flatMap fun entry => f entry.2).length + (f value).length
      ≤ (m.flatMap fun entry => f entry.2).length := by
  induction m with
  | nil => simp at h
  | cons entry rest ih =>
    by_cases hk : entry.1 = id
    · obtain rfl : entry.2 = value := by simpa [find?, hk] using h
      have hrest := length_flatMap_erase_le f id rest
      simp only [erase, List.filter_cons, hk, List.flatMap_cons, List.length_append] at hrest ⊢
      simp at *
      omega
    · have := ih (by simpa [find?, hk] using h)
      simpa [erase, hk, Nat.add_assoc] using this

end IdMap

end BoundView
