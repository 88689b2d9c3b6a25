import BoundView.Proofs.Schema.Circles
import BoundView.Proofs.Schema.Faults

/-!
# Schemas that refer to nothing outside

Main statement: whatever the spec, the types of a schema that compiles mention only one another,
have different pointers, and every chain of references among them ends at a type that is none; and
the compiler finds a circle of references just if all references lead somewhere and some of them
lead back.
-/

namespace BoundView

open Relation (TransGen ReflTransGen)

/-- The types that a kind mentions: its parts, or the target of a reference. -/
def TypeKind.mentions : TypeKind TypeId → List TypeId
  | .ref target => [target]
  | kind => kind.parts

namespace Schema

variable {s : Schema} {id child type : TypeId} {seg : Seg} {path : Path}

/-- A schema whose types mention only one another, with a pointer each, and in which every chain of
references ends. -/
structure Closed (s : Schema) : Prop where
  root_lt : s.root < s.size
  mentioned_lt : ∀ type ∈ s.types, ∀ id ∈ type.kind.mentions, id < s.size
  nodup_pointers : (s.types.map TypeDescriptor.pointer).Nodup
  chain_ends : ∀ id < s.size, ∃ last < s.size,
    ReflTransGen s.RefersTo id last ∧ (s.descriptor last).kind.isRef = false

/-! ## Types further down -/

theorem WellFormed.typeAt_lt (hs : s.WellFormed) (hid : id < s.size)
    (h : s.typeAt id path = some type) : type < s.size := by
  induction path generalizing id with
  | nil => exact Option.some.inj h ▸ hid
  | cons seg path ih =>
    obtain ⟨child, hchild, h⟩ := Option.bind_eq_some_iff.1 h
    exact ih (hs.stepType_lt hchild) h

/-! ## Compiled schemas -/

theorem FaultBy.ne_unresolvedReference {breaks : Json.Number → Rule → Prop} {v : Json}
    {violation : Violation} (h : s.FaultBy breaks id v path violation) :
    violation ≠ .unresolvedReference := by
  rintro rfl
  cases h

theorem closed_of_link {spec : PropertySpec} (hspec : spec.Distinct)
    (hlink : (layOut "#" 0 spec).link = .ok s) (hcircular : s.firstCircular? = none) :
    s.Closed := by
  obtain ⟨hroot, hlt⟩ := lt_size_of_link hspec hlink
  refine ⟨hroot, fun type htype id hid => ?_, nodup_pointers_of_link hspec hlink, fun id hid => ?_⟩
  · obtain ⟨hparts, hrefs⟩ := hlt type htype
    cases hkind : type.kind with
    | ref target =>
      rw [hkind] at hid
      obtain rfl := List.mem_singleton.1 hid
      exact hrefs id hkind
    | string | number | boolean | array | object | any =>
      rw [hkind] at hid hparts
      exact hparts id hid
  · have hrefs := fun type htype => (hlt type htype).2
    exact ⟨s.resolve id, follow_lt hrefs _ id hid, s.reaches_follow _ id,
      firstCircular?_eq_none.1 hcircular id⟩

/-- Every schema that compiles is closed, so that following references or the parts of types never
leads out of it, references are never left where a type is looked for, and no value is refused for
one.  The compiler reports a circle of references just if every reference names a node, but some
chain of references comes back to where it started. -/
theorem compile_closed {spec : PropertySpec} (hspec : spec.Distinct) :
    (∀ s, (compile spec).1 = .ok s → s.Closed
      ∧ (∀ id < s.size, ReflTransGen s.RefersTo id (s.resolve id) ∧ (s.kind id).isRef = false)
      ∧ (∀ id < s.size, ∀ path type, s.typeAt id path = some type →
        type < s.size ∧ ∀ n, s.follow n type < s.size)
      ∧ ∀ id v path e, s.instantiate id v path = .error e →
        e.violation ≠ .unresolvedReference)
    ∧ ((∃ pointer, (compile spec).1 = .error (.refCycle pointer))
      ↔ spec.RefsNamed ∧ spec.Loops) := by
  refine ⟨fun s hs => ?_, ?_, ?_⟩
  · have hcompiled : s.Compiled := ⟨spec, hspec, hs⟩
    obtain ⟨linked, hlink, hchecked⟩ := Outcome.bind_eq_ok.1 hs
    obtain ⟨rfl, hcircular, -⟩ := checked_eq_ok.1 hchecked
    have hrefs := fun type htype => ((lt_size_of_link hspec hlink).2 type htype).2
    refine ⟨closed_of_link hspec hlink hcircular, fun id _ => ?_, fun id hid path type htype => ?_,
      fun id v path e he => ?_⟩
    · exact ⟨s.reaches_follow _ id, firstCircular?_eq_none.1 hcircular id⟩
    · have hlt := hcompiled.wellFormed.typeAt_lt hid htype
      exact ⟨hlt, fun n => follow_lt hrefs n type hlt⟩
    · obtain ⟨p, hfault⟩ := hcompiled.finding_of_error he
      exact hfault.ne_unresolvedReference
  · rintro ⟨pointer, herror⟩
    rcases Outcome.bind_eq_error.1 herror with hlink | ⟨s, hlink, hchecked⟩
    -- Linking only fails for what a reference names.
    · obtain ⟨at', target, hcause | hcause⟩ := link_eq_error hlink <;> exact nomatch hcause
    · refine ⟨(exists_link_iff hspec).1 ⟨s, hlink⟩, ?_⟩
      rcases checked_eq_error.1 hchecked with ⟨id, hcircular, -⟩ | ⟨-, id, -, hcause⟩ |
        ⟨-, -, hdefaults⟩
      · by_contra hloops
        rw [(firstCircular?_eq_none_iff_loops hspec hlink).2 hloops] at hcircular
        exact nomatch hcircular
      · exact nomatch hcause
      · obtain ⟨id, cause, hcause⟩ := checkDefaults_eq_error hdefaults
        exact nomatch hcause
  · rintro ⟨hnamed, hloops⟩
    obtain ⟨s, hlink⟩ := (exists_link_iff hspec).2 hnamed
    cases hcircular : s.firstCircular? with
    | none => exact absurd hloops ((firstCircular?_eq_none_iff_loops hspec hlink).1 hcircular)
    | some id =>
      have hchecked : s.checked = .error (.refCycle (s.pointer id)) :=
        checked_eq_error.2 (.inl ⟨id, hcircular, rfl⟩)
      exact ⟨s.pointer id, Outcome.bind_eq_error.2 (.inr ⟨s, hlink, hchecked⟩)⟩

end Schema

/-! ## Two names for nothing -/

namespace Echo

/-- Two properties that stand for one another. -/
def spec : PropertySpec :=
  let call := PropertySpec.ofKind (.ref "#/properties/answer")
  .object [("call", call), ("answer", .ofKind (.ref "/properties/call/"))]

def linked : Schema where
  types := [
    ⟨"#", .optional, .object ⟨[("call", 1), ("answer", 2)], []⟩⟩,
    ⟨"#/properties/call", .optional, .ref 2⟩,
    ⟨"#/properties/answer", .optional, .ref 1⟩]
  root := 0

theorem distinct : spec.Distinct := by
  simp [spec, PropertySpec.object, PropertySpec.ofKind, Members.ofList, Members.set,
    PropertySpec.Distinct, SpecKind.Distinct, PropertySpec.DistinctAll]

theorem loops : spec.Loops := by
  refine ⟨[.property "call"], .tail (b := [.property "answer"]) (.single ?_) ?_⟩
  · exact ⟨_, _, _, rfl, rfl, rfl, rfl⟩
  · exact ⟨_, _, _, rfl, rfl, rfl, rfl⟩

/-- Each of the two leads somewhere, but neither to a type. -/
theorem compile_refCycle : spec.Distinct ∧ spec.RefsNamed ∧ spec.Loops
    ∧ ∃ pointer, (Schema.compile spec).1 = .error (.refCycle pointer) := by
  have hlink : (Schema.layOut "#" 0 spec).link = .ok linked := rfl
  have hnamed := (Schema.exists_link_iff distinct).1 ⟨linked, hlink⟩
  exact ⟨distinct, hnamed, loops, (Schema.compile_closed distinct).2.2 ⟨hnamed, loops⟩⟩

end Echo

end BoundView
