import BoundView.Proofs.Value.Rational
import BoundView.Proofs.View.ItemScopes

/-!
# Values as documents

What no reference and nothing undefined occurs in is written as a document and read back.  Main
statement: what is read back equals the value, and all numbers of the document stand for the numbers
of the value, but for `2 ^ 63`, which is written one less.
-/

namespace BoundView

/-! ## The numbers of documents and of values -/

namespace Json

mutual

/-- The numbers of a document, in order. -/
def numbers : Json → List Number
  | .number n => [n]
  | .array items => itemNumbers items
  | .object ms => memberNumbers ms
  | _ => []

def itemNumbers : List Json → List Number
  | [] => []
  | item :: rest => numbers item ++ itemNumbers rest

def memberNumbers : List (String × Json) → List Number
  | [] => []
  | (_, value) :: rest => numbers value ++ memberNumbers rest

end

end Json

namespace Value

mutual

/-- The numbers of a value, in order. -/
def numbers : Value → List Float
  | .number x => [x]
  | .list items => itemNumbers items
  | .map ms => memberNumbers ms
  | _ => []

def itemNumbers : List Value → List Float
  | [] => []
  | item :: rest => numbers item ++ itemNumbers rest

def memberNumbers : List (String × Value) → List Float
  | [] => []
  | (_, value) :: rest => numbers value ++ memberNumbers rest

end

/-- The values that consist of data alone. -/
inductive Portable : Value → Prop where
  | null : Portable .null
  | bool (b : Bool) : Portable (.bool b)
  | number {x : Float} (h : Binary64.isFinite x = true) : Portable (.number x)
  | string (s : String) : Portable (.string s)
  | list {items : List Value} (h : ∀ item ∈ items, Portable item) : Portable (.list items)
  | map {ms : Members Value} (hnodup : (ms.map Prod.fst).Nodup)
      (h : ∀ pair ∈ ms, Portable pair.2) : Portable (.map ms)

variable {models : Models} {v : Value} {items : List Value} {ms : Members Value}

/-! ## Writing item by item -/

/-- The document that a value is written as. -/
def written (models : Models) (v : Value) : Json :=
  (v.toJson models).1

theorem written_list : written models (.list items) = .array (items.map (written models)) := by
  have hitems : (toItems items models).1 = items.map (written models) := by
    induction items with
    | nil => rfl
    | cons item rest ih =>
      rw [List.map_cons, ← ih, toItems]
      rfl
  rw [← hitems, written, toJson]
  rfl

theorem written_map :
    written models (.map ms) = .object (Members.mapValues (written models) ms) := by
  have hmembers : (toMembers ms models).1 = Members.mapValues (written models) ms := by
    induction ms with
    | nil => rfl
    | cons pair rest ih =>
      obtain ⟨name, value⟩ := pair
      show _ = (name, written models value) :: Members.mapValues (written models) rest
      rw [← ih, toMembers]
      rfl
  rw [← hmembers, written, toJson]
  rfl

theorem ofItems_map {f : Value → Json} :
    ofItems (items.map f) = items.map fun v => ofJson (f v) := by
  induction items with
  | nil => rfl
  | cons item rest ih => rw [List.map_cons, List.map_cons, ofItems, ih]

theorem ofMembers_mapValues {f : Value → Json} :
    ofMembers (Members.mapValues f ms) = Members.mapValues (fun v => ofJson (f v)) ms := by
  induction ms with
  | nil => rfl
  | cons pair rest ih =>
    show ofMembers ((pair.1, f pair.2) :: Members.mapValues f rest)
      = (pair.1, ofJson (f pair.2)) :: Members.mapValues (fun v => ofJson (f v)) rest
    rw [ofMembers, ih]

/-! ## Reading back -/

theorem beqItems_map {f : Value → Value} (h : ∀ item ∈ items, (f item == item) = true) :
    beqItems (items.map f) items = true := by
  induction items with
  | nil => rfl
  | cons item rest ih =>
    rw [List.forall_mem_cons] at h
    rw [List.map_cons, beqItems, ih h.2, Bool.and_true]
    exact h.1

theorem beq_mapValues {f : Value → Value} (hnodup : (ms.map Prod.fst).Nodup)
    (h : ∀ pair ∈ ms, (f pair.2 == pair.2) = true) :
    (Value.map (Members.mapValues f ms) == .map ms) = true := by
  refine beq_map_iff.2 ⟨List.length_map _, fun pair hpair => ?_⟩
  obtain ⟨⟨name, value⟩, hmem, rfl⟩ := List.mem_map.1 hpair
  exact ⟨value, Members.find?_of_mem hnodup hmem, h _ hmem⟩

/-- What a value of data is written as is read back as an equal value. -/
theorem Portable.beq_ofJson (hv : v.Portable) : (ofJson (v.written models) == v) = true := by
  induction hv with
  | null => rfl
  | bool b => exact beq_self_eq_true b
  | string s => exact beq_self_eq_true s
  | number h =>
    obtain ⟨n, hn, -, hsame⟩ := Json.exists_ofFloat h
    rw [written, toJson]
    show (ofJson (Json.ofFloat _) == _) = true
    rw [hn, ofJson]
    show (n.toFloat == _) = true
    rw [Zeros.beq_eq hsame (.refl _)]
    exact Binary64.beq_self (Binary64.isNaN_of_isFinite h)
  | list _ ih =>
    rw [written_list, ofJson, ofItems_map]
    exact beqItems_map ih
  | map hnodup _ ih =>
    rw [written_map, ofJson, ofMembers_mapValues]
    exact beq_mapValues hnodup ih

/-! ## Numbers that are written -/

theorem numbers_list : numbers (.list items) = items.flatMap numbers := by
  rw [numbers]
  induction items with
  | nil => rfl
  | cons item rest ih => rw [itemNumbers, ih, List.flatMap_cons]

theorem numbers_map : numbers (.map ms) = ms.flatMap fun pair => numbers pair.2 := by
  rw [numbers]
  induction ms with
  | nil => rfl
  | cons pair rest ih => rw [memberNumbers, ih, List.flatMap_cons]

end Value

namespace Json

theorem numbers_array {items : List Json} : numbers (.array items) = items.flatMap numbers := by
  rw [numbers]
  induction items with
  | nil => rfl
  | cons item rest ih => rw [itemNumbers, ih, List.flatMap_cons]

theorem numbers_object {ms : Members Json} :
    numbers (.object ms) = ms.flatMap fun pair => numbers pair.2 := by
  rw [numbers]
  induction ms with
  | nil => rfl
  | cons pair rest ih => rw [memberNumbers, ih, List.flatMap_cons]

end Json

namespace Value

variable {models : Models} {v : Value} {items : List Value} {ms : Members Value}

/-- Number by number, what is written for finite numbers. -/
abbrev Writes (n : Json.Number) (x : Float) : Prop :=
  Binary64.isFinite x = true ∧ Json.ofFloat x = .number n

theorem forall₂_flatMap {α : Type} {as : List α} {f : α → List Json.Number} {g : α → List Float}
    (h : ∀ a ∈ as, List.Forall₂ Writes (f a) (g a)) :
    List.Forall₂ Writes (as.flatMap f) (as.flatMap g) := by
  induction as with
  | nil => exact .nil
  | cons a rest ih =>
    rw [List.forall_mem_cons] at h
    rw [List.flatMap_cons, List.flatMap_cons]
    exact List.rel_append h.1 (ih h.2)

theorem Portable.writes (hv : v.Portable) :
    List.Forall₂ Writes (v.written models).numbers v.numbers := by
  induction hv with
  | null | bool | string => exact .nil
  | number h =>
    obtain ⟨n, hn, -, -⟩ := Json.exists_ofFloat h
    rw [written, toJson]
    show List.Forall₂ Writes (Json.ofFloat _).numbers _
    rw [hn]
    exact .cons ⟨h, hn⟩ .nil
  | list _ ih =>
    rw [written_list, Json.numbers_array, numbers_list, List.flatMap_map]
    exact forall₂_flatMap ih
  | map _ _ ih =>
    rw [written_map, Json.numbers_object, numbers_map, Members.mapValues, List.flatMap_map]
    exact forall₂_flatMap ih

theorem exact_iff {ns : List Json.Number} {xs : List Float} (h : List.Forall₂ Writes ns xs) :
    List.Forall₂ (fun n x => n.toRat = Binary64.toRat x) ns xs
      ↔ ∀ x ∈ xs, Binary64.toRat x ≠ 2 ^ 63 := by
  induction h with
  | nil => simp
  | cons hwrites _ ih =>
    rw [List.forall₂_cons, List.forall_mem_cons, ih, Json.toRat_ofFloat hwrites.1 hwrites.2]

/-- Whether a value is read back as it was, from a document whose numbers stand for the same. -/
structure Survives (models : Models) (v : Value) : Prop where
  beq : (ofJson (v.written models) == v) = true
  exact : List.Forall₂ (fun n x => n.toRat = Binary64.toRat x) (v.written models).numbers v.numbers

/-- A value of data survives being written, unless `2 ^ 63` is among its numbers; what is read back
equals the value even then. -/
theorem survives_iff (models : Models) (hv : v.Portable) : (ofJson (v.written models) == v) = true
    ∧ (v.Survives models ↔ ∀ x ∈ v.numbers, Binary64.toRat x ≠ 2 ^ 63) :=
  ⟨hv.beq_ofJson, fun h => (exact_iff hv.writes).1 h.exact,
    fun h => ⟨hv.beq_ofJson, (exact_iff hv.writes).2 h⟩⟩

/-- The least integer that is written, a fraction, a negative zero and an integer beyond those that
are written as integers. -/
def extremes : Value :=
  .map [("low", .number (Binary64.ofInt (-2 ^ 63))),
    ("others", .list [.number (Binary64.nearest false 1 10), .null,
      .map [("zero", .number (Binary64.nearest true 0 1)), ("even", .bool true)]]),
    ("high", .number (Binary64.ofInt (2 ^ 64)))]

theorem extremes_portable : extremes.Portable := by
  have hinner : Portable (.map [("zero", .number (Binary64.nearest true 0 1)),
      ("even", .bool true)]) :=
    .map (by decide) (List.forall_mem_cons.2
      ⟨.number (by decide +kernel), List.forall_mem_singleton.2 (.bool true)⟩)
  have hothers : Portable (.list [.number (Binary64.nearest false 1 10), .null,
      .map [("zero", .number (Binary64.nearest true 0 1)), ("even", .bool true)]]) :=
    .list (List.forall_mem_cons.2 ⟨.number (by decide +kernel), List.forall_mem_cons.2
      ⟨.null, List.forall_mem_singleton.2 hinner⟩⟩)
  exact .map (by decide) (List.forall_mem_cons.2 ⟨.number (by decide +kernel),
    List.forall_mem_cons.2 ⟨hothers, List.forall_mem_singleton.2 (.number (by decide +kernel))⟩⟩)

theorem extremes_survives : extremes.Portable
    ∧ (ofJson (extremes.written []) == extremes) = true ∧ extremes.Survives [] := by
  have hne : ∀ x ∈ extremes.numbers, Binary64.toRat x ≠ 2 ^ 63 := by
    have hinteger : ∀ x ∈ extremes.numbers, Binary64.isFinite x = true
        ∧ Binary64.integer? x ≠ some (2 ^ 63) := by decide +kernel
    intro x hx heq
    obtain ⟨hfinite, hne⟩ := hinteger x hx
    exact hne (Binary64.integer?_of_toRat hfinite (heq.trans (by norm_num)))
  obtain ⟨hbeq, hsurvives⟩ := survives_iff [] extremes_portable
  exact ⟨extremes_portable, hbeq, hsurvives.2 hne⟩

theorem not_survives_power : ¬∀ (models : Models) (v : Value), v.Portable → v.Survives models := by
  intro h
  have hportable : (Value.number (Binary64.ofInt (2 ^ 63))).Portable := .number (by decide +kernel)
  have hnumbers : ((Value.number (Binary64.ofInt (2 ^ 63))).written []).numbers
      = [.int (2 ^ 63 - 1)] := by decide +kernel
  have hexact := (h [] _ hportable).exact
  rw [hnumbers, numbers, List.forall₂_cons, Json.Number.toRat,
    Binary64.toRat_of_integer? (n := 2 ^ 63) (by decide +kernel)] at hexact
  exact absurd hexact.1 (by norm_num)

end Value

end BoundView
