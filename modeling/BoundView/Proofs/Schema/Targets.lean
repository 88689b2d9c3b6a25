import BoundView.Proofs.Schema.Numbering
import Mathlib.Data.List.DropRight

/-!
# References by pointer

A reference may be written in more than one way, and slashes at its end are dropped before the type
is looked up.  The pointer of a property whose name is empty ends in a slash, too.  Main statement:
a reference that is written as the pointer of a node leads to the type of that node and to no other,
but for nodes that are such properties; what is left of their pointers names nothing.
-/

namespace BoundView

namespace SpecPlace

variable {place : SpecPlace} {name : String}

/-- Whether the last step leads to a property whose name is empty. -/
def EndsUnnamed (place : SpecPlace) : Prop :=
  place.getLast? = some (.property "")

instance (place : SpecPlace) : Decidable place.EndsUnnamed :=
  inferInstanceAs (Decidable (place.getLast? = _))

theorem endsUnnamed_concat {step : SpecStep} :
    EndsUnnamed (place ++ [step]) ↔ step = .property "" := by
  rw [EndsUnnamed, List.getLast?_concat, Option.some_inj]

theorem toList_pointer (place : SpecPlace) : place.pointer.toList = '#' :: suffix place :=
  toList_pointerFrom "#" place

theorem suffix_append (place rest : SpecPlace) :
    suffix (place ++ rest) = suffix place ++ suffix rest := by
  have h := toList_pointer (place ++ rest)
  rw [pointer, pointerFrom_append, toList_pointerFrom, ← pointer, toList_pointer] at h
  exact (List.cons.inj h).2.symm

/-- Only an empty name leaves a slash at the end. -/
theorem exists_suffix_eq_concat (hne : place ≠ []) (hnamed : ¬place.EndsUnnamed) :
    ∃ cs c, suffix place = cs ++ [c] ∧ c ≠ '/' := by
  obtain ⟨front, step, rfl⟩ := (List.eq_nil_or_concat' place).resolve_left hne
  rw [endsUnnamed_concat] at hnamed
  rw [suffix_append]
  cases step with
  | items => exact ⟨suffix front ++ "/item".toList, 's', by simp [suffix], by decide⟩
  | property name =>
    have hname : Pointer.escapeChars name.toList ≠ [] := by
      intro hnil
      have hempty : name.toList = [] := Pointer.escapeChars_injective hnil
      exact hnamed (congrArg _ (String.toList_inj.1 hempty))
    obtain ⟨cs, c, hcs⟩ := (List.eq_nil_or_concat' _).resolve_left hname
    have hslash : c ≠ '/' := by
      refine Pointer.escapeChars_ne_slash name.toList c ?_
      rw [hcs]
      exact List.mem_concat_self
    exact ⟨suffix front ++ "/properties/".toList ++ cs, c, by simp [suffix, hcs], hslash⟩

/-- What stands before the last slash of a pointer that ends in one is the pointer of no node. -/
theorem pointer_ne_append_properties (p q : SpecPlace) :
    p.pointer ≠ q.pointer ++ "/properties" := by
  intro h
  -- One step further on, the items of the one would be a property of the other.
  have hitems : SpecPlace.pointer (p ++ [.items])
      = SpecPlace.pointer (q ++ [.property "items"]) := by
    rw [pointer_concat, pointer_concat, h]
    refine String.toList_inj.1 ?_
    simp [extend, Schema.itemsPointer, Schema.fieldPointer, Pointer.escape, Pointer.escapeChars]
  have hlast := congrArg List.getLast? (pointer_injective hitems)
  rw [List.getLast?_concat, List.getLast?_concat] at hlast
  cases hlast

end SpecPlace

namespace Schema

open SpecPlace (suffix toList_pointer)

variable {spec x y : PropertySpec} {place q : SpecPlace} {s : Schema} {id : TypeId}

/-! ## What a pointer stands for as a target -/

theorem toList_normalizeTarget_pointer (place : SpecPlace) :
    (normalizeTarget place.pointer).toList = '#' :: (suffix place).rdropWhile (· == '/') := by
  rw [normalizeTarget, toList_pointer]
  exact String.toList_ofList

theorem normalizeTarget_pointer (h : ¬place.EndsUnnamed) :
    normalizeTarget place.pointer = place.pointer := by
  refine String.toList_inj.1 ?_
  rw [toList_normalizeTarget_pointer, toList_pointer]
  by_cases hnil : place = []
  · rw [hnil]
    rfl
  · obtain ⟨cs, c, hsuffix, hslash⟩ := SpecPlace.exists_suffix_eq_concat hnil h
    rw [hsuffix, List.rdropWhile_concat_neg _ _ _ (by simpa using hslash)]

theorem normalizeTarget_unnamed (place : SpecPlace) :
    normalizeTarget (SpecPlace.pointer (place ++ [.property ""]))
      = place.pointer ++ "/properties" := by
  have hsuffix : suffix (place ++ [.property ""])
      = suffix place ++ "/propertie".toList ++ ['s'] ++ ['/'] := by
    rw [SpecPlace.suffix_append]
    simp [suffix, Pointer.escapeChars]
  refine String.toList_inj.1 ?_
  rw [toList_normalizeTarget_pointer, hsuffix, List.rdropWhile_concat_pos _ _ _ (by decide),
    List.rdropWhile_concat_neg _ _ _ (by decide), String.toList_append, toList_pointer]
  simp

/-- The reference reads as the pointer of no place at all. -/
theorem pointer_ne_normalizeTarget (h : place.EndsUnnamed) (p : SpecPlace) :
    p.pointer ≠ normalizeTarget place.pointer := by
  obtain ⟨front, rfl⟩ := List.getLast?_eq_some_iff.1 h
  rw [normalizeTarget_unnamed]
  exact SpecPlace.pointer_ne_append_properties p front

/-! ## What is laid out -/

mutual

/-- Computed fields have pointers of places, too. -/
theorem computed_layOut (pointer : String) (next : TypeId) : ∀ spec : PropertySpec,
    ∀ c ∈ (layOut pointer next spec).computed, ∃ place, c = SpecPlace.pointerFrom pointer place
  | .mk optional default kind => by
    cases kind with
    | array items =>
      rw [layOut]
      intro c hc
      obtain ⟨place, hplace⟩ := computed_layOut (itemsPointer pointer) (next + 1) items c hc
      exact ⟨.items :: place, hplace⟩
    | object properties =>
      rw [layOut]
      exact computed_layOutFields pointer (next + 1) properties
    | string | number | boolean | ref | computed | unknown =>
      rw [layOut]
      exact fun c hc => absurd hc List.not_mem_nil

theorem computed_layOutFields (pointer : String) (next : TypeId) :
    ∀ properties : List (String × PropertySpec),
      ∀ c ∈ (layOutFields pointer next properties).2.computed,
        ∃ place, c = SpecPlace.pointerFrom pointer place
  | [] => by
    rw [layOutFields]
    exact fun c hc => absurd hc List.not_mem_nil
  | (name, .mk optional default kind) :: rest => by
    by_cases hcomputed : ∃ expression, kind = .computed expression
    · obtain ⟨expression, rfl⟩ := hcomputed
      rw [layOutFields]
      intro c hc
      rcases List.mem_cons.1 hc with rfl | hc
      · exact ⟨[.property name], rfl⟩
      · exact computed_layOutFields pointer next rest c hc
    · rw [layOutFields]
      · intro c hc
        rcases List.mem_append.1 hc with hc | hc
        · obtain ⟨place, hplace⟩ := computed_layOut (fieldPointer pointer name) next _ c hc
          exact ⟨.property name :: place, hplace⟩
        · exact computed_layOutFields pointer _ rest c hc
      all_goals exact fun expression heq => hcomputed ⟨expression, heq⟩

end

/-! ## References -/

/-- Whether a reference that is written as the pointer of the node at a place leads to the type of
that node and to no other, wherever the reference stands. -/
def NamedByPointer (spec : PropertySpec) (place : SpecPlace) : Prop :=
  ∃ id, (∀ other, PointsTo (layOut "#" 0 spec).types other place.pointer ↔ other = id)
    ∧ ∀ at', (layOut "#" 0 spec).linkKind at' (.ref place.pointer) = .ok (.ref id)

theorem linkKind_ref_of_idOf? {d : Draft} {target : String}
    (h : d.idOf? (normalizeTarget target) = some id) (at' : String) :
    d.linkKind at' (.ref target) = .ok (.ref id) := by
  simp only [Draft.linkKind, h]

/-- One number is that of the type of a node. -/
theorem exists_only_id (hspec : spec.Distinct) (hx : spec.node? place = some x) :
    ∃ id, ∀ other, PointsTo (layOut "#" 0 spec).types other place.pointer ↔ other = id := by
  obtain ⟨id, hid⟩ := (layOut_drawn hspec).exists_id hx
  refine ⟨id, fun other => ⟨fun hother => ?_, fun heq => heq ▸ hid⟩⟩
  exact PointsTo.inj (nodup_pointers hspec) hother hid

theorem namedByPointer_of_not_endsUnnamed (hspec : spec.Distinct) (hx : spec.node? place = some x)
    (hnamed : ¬place.EndsUnnamed) : NamedByPointer spec place := by
  obtain ⟨id, hid⟩ := exists_only_id hspec hx
  obtain ⟨found, hfound⟩ := exists_idOf? ((hid id).2 rfl)
  obtain rfl := (hid found).1 (pointsTo_of_idOf? hfound)
  rw [← normalizeTarget_pointer hnamed] at hfound
  exact ⟨found, hid, linkKind_ref_of_idOf? hfound⟩

/-- Without its last slash the pointer is neither that of a type nor that of a computed field. -/
theorem linkKind_endsUnnamed (hspec : spec.Distinct) (h : place.EndsUnnamed) (at' : String) :
    (layOut "#" 0 spec).linkKind at' (.ref place.pointer)
      = .error (.unresolvedRef at' place.pointer) := by
  have hnone : (layOut "#" 0 spec).idOf? (normalizeTarget place.pointer) = none := by
    refine Option.eq_none_iff_forall_ne_some.2 fun id hid => ?_
    obtain ⟨p, -, -, hp⟩ := (layOut_drawn hspec).exists_place (pointsTo_of_idOf? hid)
    exact pointer_ne_normalizeTarget h p hp
  have hcomputed : normalizeTarget place.pointer ∉ (layOut "#" 0 spec).computed := by
    intro hmem
    obtain ⟨p, hp⟩ := computed_layOut "#" 0 spec _ hmem
    exact pointer_ne_normalizeTarget h p hp.symm
  have hcontains :
      (layOut "#" 0 spec).computed.contains (normalizeTarget place.pointer) = false := by
    simpa using hcomputed
  simp only [Draft.linkKind, hnone, hcontains, Bool.false_eq_true, if_false]

/-- In a schema that compiles, each reference that is written as the pointer of a node refers to the
type of that node. -/
theorem refersTo_of_compile (hspec : spec.Distinct) (hs : (compile spec).1 = .ok s)
    (hy : spec.node? q = some y)
    (hkind : y.kind = .ref place.pointer) : ¬place.EndsUnnamed ∧ ∃ id target,
      PointsTo s.types id q.pointer ∧ PointsTo s.types target place.pointer
      ∧ (s.descriptor id).kind = .ref target := by
  obtain ⟨linked, hlink, hchecked⟩ := Outcome.bind_eq_ok.1 hs
  obtain ⟨rfl, -⟩ := checked_eq_ok.1 hchecked
  obtain ⟨-, hdrawn⟩ := link_drawn (layOut_drawn hspec) hlink
  have hnamed : ¬place.EndsUnnamed := by
    intro hunnamed
    obtain ⟨p, -, -, hp⟩ := exists_target hdrawn hy hkind
    exact pointer_ne_normalizeTarget hunnamed p hp
  obtain ⟨id, hid⟩ := hdrawn.exists_id hy
  have hlays := hdrawn.lays hid hy
  rw [hkind] at hlays
  refine ⟨hnamed, id, ?_⟩
  generalize (s.descriptor id).kind = kind at hlays ⊢
  cases hlays with
  | @ref _ target htarget =>
    rw [Named, normalizeTarget_pointer hnamed] at htarget
    exact ⟨target, hid, htarget, rfl⟩

/-- A reference that is written as the pointer of a node leads to the type of that node and to no
other just if the node is no property with an empty name.  If it is one, a reference like that is
never resolved, so that no spec compiles that contains it. -/
theorem namedByPointer_iff (hspec : spec.Distinct) (hx : spec.node? place = some x) :
    (NamedByPointer spec place ↔ ¬place.EndsUnnamed)
    ∧ (place.EndsUnnamed → ∀ at', (layOut "#" 0 spec).linkKind at' (.ref place.pointer)
      = .error (.unresolvedRef at' place.pointer))
    ∧ ∀ q y, spec.node? q = some y → y.kind = .ref place.pointer →
      ∀ s, (compile spec).1 = .ok s → ¬place.EndsUnnamed ∧ ∃ id target,
        PointsTo s.types id q.pointer ∧ PointsTo s.types target place.pointer
        ∧ (s.descriptor id).kind = .ref target := by
  have hunnamed : place.EndsUnnamed → ∀ at', _ := linkKind_endsUnnamed hspec
  refine ⟨⟨?_, namedByPointer_of_not_endsUnnamed hspec hx⟩, hunnamed, ?_⟩
  · rintro ⟨id, -, hlink⟩ h
    have hboth := (hlink "#").symm.trans (hunnamed h "#")
    exact nomatch hboth
  · intro q y hy hkind s hs
    exact refersTo_of_compile hspec hs hy hkind

end Schema

/-! ## A property without a name -/

namespace Nameless

/-- A property whose name is empty, and one that takes it for its type. -/
def spec : PropertySpec :=
  .object [("", .ofKind .string), ("alias", .ofKind (.ref "#/properties/"))]

/-- The same with a list whose name is all punctuation. -/
def renamed : PropertySpec :=
  .object [("/~ ", .ofKind (.array (.ofKind .string))),
    ("alias", .ofKind (.ref "#/properties/~1~0 /items"))]

def list : SpecPlace :=
  [.property "/~ ", .items]

theorem distinct_renamed : renamed.Distinct := by
  simp [renamed, PropertySpec.object, PropertySpec.ofKind, Members.ofList, Members.set,
    PropertySpec.Distinct, SpecKind.Distinct, PropertySpec.DistinctAll]

/-- The compiler gives the pointer to a type, and yet does not know it as a target. -/
theorem not_namedByPointer : spec.Distinct
    ∧ spec.node? [.property ""] = some (.ofKind .string)
    ∧ Schema.PointsTo (Schema.layOut "#" 0 spec).types 1 (SpecPlace.pointer [.property ""])
    ∧ ¬Schema.NamedByPointer spec [.property ""]
    ∧ (Schema.compile spec).1
      = .error (.unresolvedRef "#/properties/alias" (SpecPlace.pointer [.property ""])) := by
  refine ⟨?_, rfl, ⟨_, rfl, rfl⟩, ?_, rfl⟩
  · simp [spec, PropertySpec.object, PropertySpec.ofKind, Members.ofList, Members.set,
      PropertySpec.Distinct, SpecKind.Distinct, PropertySpec.DistinctAll]
  · rintro ⟨id, -, hlink⟩
    have hunresolved : (Schema.layOut "#" 0 spec).linkKind "#"
        (.ref (SpecPlace.pointer [.property ""]))
          = .error (.unresolvedRef "#" (SpecPlace.pointer [.property ""])) := rfl
    have hboth := (hlink "#").symm.trans hunresolved
    cases hboth

theorem namedByPointer_renamed : renamed.Distinct
    ∧ renamed.node? list = some (.ofKind .string) ∧ Schema.NamedByPointer renamed list := by
  have hx : renamed.node? list = some (.ofKind .string) := rfl
  have hnamed : ¬list.EndsUnnamed := by decide
  exact ⟨distinct_renamed, hx,
    (Schema.namedByPointer_iff distinct_renamed hx).1.2 hnamed⟩

end Nameless

end BoundView
