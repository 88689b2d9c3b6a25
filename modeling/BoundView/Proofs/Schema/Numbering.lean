import BoundView.Proofs.Schema.Drawing

/-!
# How types are numbered

Types are numbered in the order in which a reader comes to the nodes of the spec, one type for each
node that gets one.  Main statement: no two types of a schema have one pointer, so the pointer of a
node tells the number of its type.
-/

namespace BoundView

namespace PropertySpec

mutual

/-- The places of the nodes that get types, in the order in which a reader comes to them. -/
def places : PropertySpec → List SpecPlace
  | .mk _ _ kind =>
    match kind with
    | .array items => [] :: items.places.map (.items :: ·)
    | .object properties => [] :: placesOfAll properties
    | _ => [[]]

def placesOfAll : List (String × PropertySpec) → List SpecPlace
  | [] => []
  | (name, .mk optional default kind) :: rest =>
    match kind with
    | .computed _ => placesOfAll rest
    | kind => (places (.mk optional default kind)).map (.property name :: ·) ++ placesOfAll rest

end

theorem exists_of_mem_placesOfAll {properties : List (String × PropertySpec)} {place : SpecPlace}
    (h : place ∈ placesOfAll properties) :
    ∃ name ∈ properties.map Prod.fst, ∃ rest, place = .property name :: rest := by
  induction properties with
  | nil =>
    rw [placesOfAll] at h
    exact absurd h List.not_mem_nil
  | cons property properties ih =>
    obtain ⟨name, optional, default, kind⟩ := property
    have hlater : place ∈ placesOfAll properties →
        ∃ name' ∈ name :: properties.map Prod.fst, ∃ rest, place = .property name' :: rest := by
      intro h
      obtain ⟨other, hother, rest, rfl⟩ := ih h
      exact ⟨other, List.mem_cons_of_mem name hother, rest, rfl⟩
    by_cases hcomputed : ∃ expression, kind = .computed expression
    · obtain ⟨expression, rfl⟩ := hcomputed
      rw [placesOfAll] at h
      exact hlater h
    · rw [placesOfAll] at h
      · rcases List.mem_append.1 h with h | h
        · obtain ⟨rest, -, rfl⟩ := List.mem_map.1 h
          exact ⟨name, List.mem_cons_self, rest, rfl⟩
        · exact hlater h
      · exact fun expression heq => hcomputed ⟨expression, heq⟩

mutual

/-- A reader comes to each place once. -/
theorem nodup_places : ∀ spec : PropertySpec, spec.Distinct → spec.places.Nodup
  | .mk optional default kind, h => by
    cases kind with
    | array items =>
      rw [places]
      refine List.nodup_cons.2 ⟨fun hmem => ?_, ?_⟩
      · obtain ⟨rest, -, hrest⟩ := List.mem_map.1 hmem
        exact nomatch hrest
      · exact (nodup_places items h).map List.cons_injective
    | object properties =>
      rw [places]
      refine List.nodup_cons.2 ⟨fun hmem => ?_, nodup_placesOfAll properties h.1 h.2⟩
      obtain ⟨name, -, rest, hrest⟩ := exists_of_mem_placesOfAll hmem
      exact nomatch hrest
    | string | number | boolean | ref | computed | unknown =>
      simp [places]

theorem nodup_placesOfAll : ∀ properties : List (String × PropertySpec),
    (properties.map Prod.fst).Nodup → DistinctAll properties → (placesOfAll properties).Nodup
  | [], _, _ => by
    rw [placesOfAll]
    exact List.nodup_nil
  | (name, .mk optional default kind) :: rest, hnames, h => by
    obtain ⟨hname, hnames⟩ := List.nodup_cons.1 hnames
    have hrest := nodup_placesOfAll rest hnames h.2
    by_cases hcomputed : ∃ expression, kind = .computed expression
    · obtain ⟨expression, rfl⟩ := hcomputed
      rw [placesOfAll]
      exact hrest
    · have hfirst := nodup_places (.mk optional default kind) h.1
      rw [placesOfAll]
      · refine List.nodup_append.2 ⟨hfirst.map List.cons_injective, hrest, ?_⟩
        rintro place hplace _ hother rfl
        -- Places below different properties differ in their first step.
        obtain ⟨below, -, rfl⟩ := List.mem_map.1 hplace
        obtain ⟨other, hmem, below', heq⟩ := exists_of_mem_placesOfAll hother
        obtain rfl := SpecStep.property.inj (List.cons.inj heq).1
        exact hname hmem
      · exact fun expression heq => hcomputed ⟨expression, heq⟩

end

end PropertySpec

namespace Schema

open PropertySpec (places placesOfAll nodup_places)

mutual

theorem pointers_layOut (pointer : String) (next : TypeId) : ∀ spec : PropertySpec,
    (layOut pointer next spec).types.map TypeDescriptor.pointer
      = spec.places.map (SpecPlace.pointerFrom pointer)
  | .mk optional default kind => by
    cases kind with
    | array items =>
      have hitems := pointers_layOut (itemsPointer pointer) (next + 1) items
      rw [layOut, places, List.map_cons, List.map_map]
      exact congrArg (pointer :: ·) hitems
    | object properties =>
      have hrest := pointers_layOutFields pointer (next + 1) properties
      rw [layOut, places, List.map_cons]
      exact congrArg (pointer :: ·) hrest
    | string | number | boolean | ref | computed | unknown =>
      rw [layOut, places]
      · rfl
      all_goals exact fun _ heq => nomatch heq

theorem pointers_layOutFields (pointer : String) (next : TypeId) :
    ∀ properties : List (String × PropertySpec),
      (layOutFields pointer next properties).2.types.map TypeDescriptor.pointer
        = (placesOfAll properties).map (SpecPlace.pointerFrom pointer)
  | [] => by
    rw [layOutFields, placesOfAll]
    rfl
  | (name, .mk optional default kind) :: rest => by
    by_cases hcomputed : ∃ expression, kind = .computed expression
    · obtain ⟨expression, rfl⟩ := hcomputed
      rw [layOutFields, placesOfAll]
      exact pointers_layOutFields pointer next rest
    · have hkind : ∀ expression, kind ≠ .computed expression :=
        fun expression heq => hcomputed ⟨expression, heq⟩
      have hfirst := pointers_layOut (fieldPointer pointer name) next (.mk optional default kind)
      have hrest := pointers_layOutFields pointer
        (next + (layOut (fieldPointer pointer name) next (.mk optional default kind)).types.length)
        rest
      rw [layOutFields, placesOfAll]
      · rw [List.map_append, List.map_map, ← hrest]
        exact List.map_append.trans (congrArg (· ++ _) hfirst)
      all_goals exact hkind

end

/-- No two types of a draft have one pointer. -/
theorem nodup_pointers {spec : PropertySpec} (hspec : spec.Distinct) :
    ((layOut "#" 0 spec).types.map TypeDescriptor.pointer).Nodup := by
  rw [pointers_layOut]
  exact (nodup_places spec hspec).map SpecPlace.pointer_injective

variable {d : Draft} {s : Schema} {id id' : TypeId} {pointer : String}

theorem Linked.pointers_eq (h : Linked d s) :
    s.types.map TypeDescriptor.pointer = d.types.map TypeDescriptor.pointer := by
  refine List.ext_getElem (by simp [h.length_eq]) fun i hi hi' => ?_
  rw [List.getElem_map, List.getElem_map]
  exact (linkType_eq (h.get (by simpa using hi') (by simpa using hi))).1

/-- The pointer of a node tells the number of its type. -/
theorem PointsTo.inj {ρ : Type} {types : List (TypeDescriptor ρ)}
    (hnodup : (types.map TypeDescriptor.pointer).Nodup) (hid : PointsTo types id pointer)
    (hid' : PointsTo types id' pointer) : id = id' := by
  have hpointers : ∀ {id}, PointsTo types id pointer →
      (types.map TypeDescriptor.pointer)[id]? = some pointer := by
    rintro id ⟨type, htype, rfl⟩
    rw [List.getElem?_map, htype]
    rfl
  have hlt := (List.getElem?_eq_some_iff.1 (hpointers hid)).1
  exact (List.getElem?_inj hlt hnodup).1 ((hpointers hid).trans (hpointers hid').symm)

end Schema

end BoundView
