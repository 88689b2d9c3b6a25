import BoundView.Proofs.Document.Record
import BoundView.Proofs.Model.Reachable

/-!
# Schemas that are read from documents

The properties of an object are read as a map, so no object of a spec that was read declares a name
twice, and what the compiler makes of the spec is a compiled schema.
-/

namespace BoundView

open Document
open Outcome (bind_eq_ok ite_eq_ok)

namespace RawSpec

/-- No object inside declares a name twice. -/
structure Distinct (raw : RawSpec) : Prop where
  items : ∀ items, raw.items = some items → items.Distinct
  nodup : (raw.properties.map Prod.fst).Nodup
  properties : PropertySpec.DistinctAll raw.properties

theorem distinct_empty : empty.Distinct :=
  ⟨fun _ h => (nomatch h), List.nodup_nil, trivial⟩

theorem Distinct.of_eq {raw raw' : RawSpec} (h : raw.Distinct) (hitems : raw'.items = raw.items)
    (hproperties : raw'.properties = raw.properties) : raw'.Distinct where
  items items heq := h.items items (hitems ▸ heq)
  nodup := hproperties ▸ h.nodup
  properties := hproperties ▸ h.properties

theorem distinct_toSpec {raw : RawSpec} {spec : PropertySpec} (h : raw.Distinct)
    (hspec : raw.toSpec = .ok spec) : spec.Distinct := by
  have hobject : SpecKind.Distinct (.object raw.properties) := ⟨h.nodup, h.properties⟩
  have hkeep : ∀ kind : SpecKind,
      (Except.ok (.mk (raw.optional.getD true) raw.default? kind) : Except Problem PropertySpec)
        = .ok spec → kind.Distinct → spec.Distinct :=
    fun kind heq hkind => Except.ok.inj heq ▸ hkind
  unfold toSpec at hspec
  split at hspec
  · exact hkeep _ hspec trivial
  · exact hkeep _ hspec hobject
  split at hspec
  · exact hkeep _ hspec hobject
  split at hspec
  · exact hkeep _ hspec trivial
  split at hspec
  · exact hkeep _ hspec trivial
  split at hspec
  · exact hkeep _ hspec trivial
  split at hspec
  · split at hspec
    · rename_i items hitems
      exact hkeep _ hspec (h.items items hitems)
    · exact nomatch hspec
  split at hspec
  · split at hspec
    · exact hkeep _ hspec trivial
    · exact nomatch hspec
  · exact hkeep _ hspec trivial

end RawSpec

/-- No object of a spec that was read declares a name twice. -/
theorem PropertySpec.distinct_read {origin : Origin} {o : Json.Outline} {spec : PropertySpec}
    (h : read origin o = .ok spec) : spec.Distinct := by
  rw [read] at h
  obtain ⟨raw, hraw, hspec⟩ := bind_eq_ok.1 h
  refine RawSpec.distinct_toSpec (readRecord_keeps (p := RawSpec.Distinct) ?_
    RawSpec.distinct_empty hraw) hspec
  clear h hraw hspec
  intro field part r r' hr hset
  -- A field that is neither the properties nor the items leaves both as they are.
  have hother : ∀ {α : Type} {x : Except Problem α} {f : α → RawSpec},
      (x >>= fun a => .ok (f a)) = .ok r' →
      (∀ a, (f a).items = r.items ∧ (f a).properties = r.properties) → r'.Distinct := by
    intro α x f hset hf
    obtain ⟨a, -, hset⟩ := bind_eq_ok.1 hset
    obtain rfl := Except.ok.inj hset
    exact hr.of_eq (hf a).1 (hf a).2
  rcases ite_eq_ok.1 hset with ⟨-, hset⟩ | ⟨-, hset⟩
  · exact hother hset fun _ => ⟨rfl, rfl⟩
  rcases ite_eq_ok.1 hset with ⟨-, hset⟩ | ⟨-, hset⟩
  · exact hother hset fun _ => ⟨rfl, rfl⟩
  rcases ite_eq_ok.1 hset with ⟨-, hset⟩ | ⟨-, hset⟩
  · exact hother hset fun _ => ⟨rfl, rfl⟩
  rcases ite_eq_ok.1 hset with ⟨-, hset⟩ | ⟨-, hset⟩
  · exact hother hset fun _ => ⟨rfl, rfl⟩
  rcases ite_eq_ok.1 hset with ⟨-, hset⟩ | ⟨-, hset⟩
  · exact hother hset fun _ => ⟨rfl, rfl⟩
  rcases ite_eq_ok.1 hset with ⟨-, hset⟩ | ⟨-, hset⟩
  · exact hother hset fun _ => ⟨rfl, rfl⟩
  rcases ite_eq_ok.1 hset with ⟨-, hset⟩ | ⟨-, hset⟩
  · exact hother hset fun _ => ⟨rfl, rfl⟩
  rcases ite_eq_ok.1 hset with ⟨-, hset⟩ | ⟨-, hset⟩
  · obtain ⟨properties, hproperties, hset⟩ := bind_eq_ok.1 hset
    obtain rfl := Except.ok.inj hset
    obtain ⟨hnodup, hread⟩ := readMap_eq_ok hproperties
    refine ⟨hr.items, hnodup, distinctAll_iff.2 fun pair hpair => ?_⟩
    obtain ⟨inner, hinner⟩ := hread pair hpair
    have hlt : sizeOf inner.1 < sizeOf o := Nat.lt_trans inner.2 part.2
    exact distinct_read hinner
  rcases ite_eq_ok.1 hset with ⟨-, hset⟩ | ⟨-, hset⟩
  · obtain rfl := Except.ok.inj hset
    exact ⟨fun _ h => (nomatch h), hr.nodup, hr.properties⟩
  · obtain ⟨items, hitems, hset⟩ := bind_eq_ok.1 hset
    obtain rfl := Except.ok.inj hset
    refine ⟨fun items' h => ?_, hr.nodup, hr.properties⟩
    obtain rfl := Option.some.inj h
    have hlt : sizeOf part.1 < sizeOf o := part.2
    exact distinct_read hitems
termination_by sizeOf o

/-- What the compiler makes of a document is a compiled schema. -/
theorem Schema.compiled_of_ofJson {document : Json} {spec : PropertySpec} {s : Schema}
    (hspec : PropertySpec.ofJson document = .ok spec) (h : (compile spec).1 = .ok s) : s.Compiled :=
  ⟨spec, PropertySpec.distinct_read hspec, h⟩

end BoundView
