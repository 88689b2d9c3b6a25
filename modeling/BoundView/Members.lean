/-!
# Members in order

A record whose members have names and keep the order in which they were first written: the objects
of a document, the fields of a type, the names of a scope.  Writing to a name that is there replaces
its value in place; a new name goes to the end.
-/

namespace BoundView

abbrev Members (α : Type) := List (String × α)

namespace Members

variable {α β : Type}

/-- The value of a name. -/
def find? (name : String) : Members α → Option α
  | [] => none
  | (key, value) :: rest => if key = name then some value else find? name rest

def contains (name : String) (ms : Members α) : Bool :=
  (find? name ms).isSome

/-- Write a value under a name. -/
def set (name : String) (value : α) : Members α → Members α
  | [] => [(name, value)]
  | (key, old) :: rest =>
    -- The place is kept.
    if key = name then (key, value) :: rest else (key, old) :: set name value rest

/-- Leave out a name. -/
def erase (name : String) : Members α → Members α
  | [] => []
  | (key, value) :: rest => if key = name then rest else (key, value) :: erase name rest

def keys (ms : Members α) : List String :=
  ms.map Prod.fst

def values (ms : Members α) : List α :=
  ms.map Prod.snd

/-- Write pairs one after the other: a repeated name keeps its first place and its last value. -/
def ofList (pairs : List (String × α)) : Members α :=
  pairs.foldl (fun ms pair => set pair.1 pair.2 ms) []

/-- Write all members of the second record over the first. -/
def merge (first second : Members α) : Members α :=
  second.foldl (fun ms pair => set pair.1 pair.2 ms) first

def mapValues (f : α → β) (ms : Members α) : Members β :=
  ms.map fun (key, value) => (key, f value)

@[simp] theorem find?_nil (name : String) : find? name ([] : Members α) = none := rfl

theorem find?_set_self (name : String) (value : α) (ms : Members α) :
    find? name (set name value ms) = some value := by
  induction ms with
  | nil => simp [set, find?]
  | cons pair rest ih =>
    by_cases h : pair.1 = name
    · simp [set, find?, h]
    · simp [set, find?, h, ih]

theorem find?_set_of_ne {name other : String} (value : α) (ms : Members α) (h : other ≠ name) :
    find? other (set name value ms) = find? other ms := by
  induction ms with
  | nil => simp [set, find?, Ne.symm h]
  | cons pair rest ih =>
    by_cases hp : pair.1 = name
    · simp [set, find?, hp, Ne.symm h]
    · by_cases ho : pair.1 = other
      · simp [set, find?, ho, h]
      · simp [set, find?, hp, ho, ih]

end Members

end BoundView
