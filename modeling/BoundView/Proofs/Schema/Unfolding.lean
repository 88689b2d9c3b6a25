import BoundView.Proofs.Schema.Mirroring

/-!
# References and what they name

A reference stands for what it names: with the kind of the named node in its place a spec compiles
still, and the root accepts the same values, refuses the others with the same errors and has the
same minimal value.
-/

namespace BoundView

open Outcome (bind_eq_ok)
open PropertySpec (Refers SameTop withKind)

namespace Schema

variable {spec x y : PropertySpec} {q t : SpecPlace} {s s' : Schema}

namespace Unfolds

/-! ## Checks of the unfolded schema -/

theorem firstCircular?_eq_none (h : Unfolds spec q t x y s s') (hs : s.WellFormed) :
    s'.firstCircular? = none := by
  refine Schema.firstCircular?_eq_none.2 fun id' => ?_
  by_cases hid' : id' < s'.size
  · obtain ⟨id, hid⟩ := h.exists_continued hid'
    exact (h.resolve hs hid.leads).2
  · rw [kind_of_le s' id' (Nat.le_of_not_lt hid')]
    rfl

/-- What a mirror image requires comes from what the type requires. -/
theorem exists_required (h : Unfolds spec q t x y s s') (hs : s.WellFormed) {id id' : TypeId}
    {type' : ObjectType} {field' : String × TypeId} (hid : Mirrored spec q t s s' id id')
    (hno : (s.descriptor id).kind.isRef = false)
    (hkind' : (s'.descriptor id').kind = .object type') (hfield' : field' ∈ type'.fields)
    (hrequired' : (s'.presence field'.2).isRequired = true) :
    ∃ type field, (s.descriptor id).kind = .object type ∧ field ∈ type.fields
      ∧ (s.presence field.2).isRequired = true ∧ Continued spec q t s s' field.2 field'.2 := by
  have halike := h.kindsAlike hid hno
  rw [hkind'] at halike
  generalize (s.descriptor id).kind = kind at halike ⊢
  cases halike with
  | @object type _ hfields =>
    obtain ⟨i, hi', rfl⟩ := List.getElem_of_mem hfield'
    have hi : i < type.fields.length := hfields.length_eq.symm ▸ hi'
    have hcontinued : Continued spec q t s s' type.fields[i].2 type'.fields[i].2 :=
      (hfields.get hi hi').2
    have hpresence := (h.simulates hs).presence_eq hcontinued
    exact ⟨type, type.fields[i], rfl, List.getElem_mem hi, by rw [hpresence, hrequired'],
      hcontinued⟩

/-- Endless objects of the unfolded schema mirror endless ones. -/
theorem firstEndless?_eq_none (h : Unfolds spec q t x y s s') (hs : s.WellFormed)
    (hendless : s.firstEndless? = none) : s'.firstEndless? = none := by
  rw [Schema.firstEndless?_eq_none, List.eq_nil_iff_forall_not_mem]
  obtain ⟨hsub, hneeds⟩ := s'.entangled_needs (List.range s'.size)
  generalize s'.entangled (List.range s'.size) = ids at hsub hneeds ⊢
  have hnone := not_of_required hendless (p := fun id => (s.descriptor id).kind.isRef = false
    ∧ ∃ id' ∈ ids, Mirrored spec q t s s' id id') fun id hid => ?_
  · intro id' hid'
    obtain ⟨id, hid⟩ := h.exists_continued (List.mem_range.1 (hsub.subset hid'))
    -- What requires another type is an object, and leads to itself.
    obtain ⟨type', -, hkind', -⟩ := exists_of_needsOneOf (hneeds id' hid')
    have hself : s'.resolve id' = id' := follow_of_isRef (by rw [hkind']; rfl)
    have hmirrored := (h.resolve hs hid.leads).1
    rw [hself] at hmirrored
    exact hnone (s.resolve id) ⟨hs.isRef_eq_false id, id', hid', hmirrored⟩
  · obtain ⟨hno, id', hid', hmirrored⟩ := hid
    obtain ⟨type', field', hkind', hfield', hrequired', hpart'⟩ :=
      exists_of_needsOneOf (hneeds id' hid')
    obtain ⟨type, field, hkind, hfield, hrequired, hcontinued⟩ :=
      h.exists_required hs hmirrored hno hkind' hfield' hrequired'
    exact ⟨type, field, hkind, hfield, hrequired,
      hs.isRef_eq_false field.2, s'.resolve field'.2, hpart', (h.resolve hs hcontinued.leads).1⟩

/-- What a default is expanded to at a type, it is expanded to at what comes from the type. -/
theorem expandDefault_eq_ok (h : Unfolds spec q t x y s s') (hs : s.WellFormed) {id id' : TypeId}
    (hid : Continued spec q t s s' id id') {depth : Nat} {value out : Json} {path : Path}
    (hvalue : s.presence id = .defaulted value)
    (hout : s.expandDefault depth value id path = .ok out) (path' : Path) :
    s'.expandDefault s'.size value id' path' = .ok out := by
  have hfollows : ChecksAlike False _ _ _ := expandDefault_follows (h.simulates hs) depth value
  rw [(h.simulates hs).presence_eq hid] at hvalue
  exact expandDefault_size hvalue ((hfollows hid path path').ok out hout)

theorem checkDefaults_eq_ok (h : Unfolds spec q t x y s s') (hs : s.WellFormed)
    (hexpandable : s.Expandable) : s'.checkDefaults (List.range s'.size) = .ok () := by
  refine Schema.checkDefaults_eq_ok.2 fun id' hid' value hvalue => ?_
  obtain ⟨id, hid⟩ := h.exists_continued (List.mem_range.1 hid')
  rw [← (h.simulates hs).presence_eq hid] at hvalue
  obtain ⟨out, hout⟩ := hexpandable id value hvalue []
  exact ⟨out, expandDefault_succ (h.expandDefault_eq_ok hs hid hvalue hout [])⟩

/-! ## Values of the unfolded schema -/

theorem instantiate_eq (h : Unfolds spec q t x y s s') (hs : s.WellFormed)
    (hexpandable : s.Expandable) {id id' : TypeId} (hid : Continued spec q t s s' id id')
    (v : Json) (path : Path) : s'.instantiate id' v path = s.instantiate id v path := by
  have hexpand : ExpandsAlike True (Continued spec q t s s') s (s.expandDefault s.size)
      (s'.expandDefault s'.size) := by
    intro id id' value hid hvalue path path'
    obtain ⟨out, hout⟩ := hexpandable id value hvalue path
    rw [hout, h.expandDefault_eq_ok hs hid hvalue hout path']
    exact .pure out
  exact (check_follows (h.simulates hs) hexpand v hid path path).eq

theorem minimalValue_eq (h : Unfolds spec q t x y s s') (hs : s.WellFormed) (hs' : s'.WellFormed)
    (hendless : s.firstEndless? = none) {id id' : TypeId} (hid : Continued spec q t s s' id id') :
    s'.minimalValue id' = s.minimalValue id := by
  have hendless' := h.firstEndless?_eq_none hs hendless
  rw [Schema.minimalValue_eq hs hendless hid.lt_size.1 (Nat.le_max_left s.size s'.size),
    Schema.minimalValue_eq hs' hendless' hid.lt_size.2 (Nat.le_max_right s.size s'.size)]
  exact (minimalWithin_eq (h.simulates hs) hid _).symm

end Unfolds

/-! ## Linking the unfolded spec -/

/-- The unfolded spec names nothing that the spec does not name. -/
theorem exists_link_unfolded (hrefers : spec.Refers q t x y) (hspec : spec.Distinct)
    (hdrawn : Drawn s.types (Named s.types) spec) :
    ∃ s', (layOut "#" 0 (withKind y.kind q spec)).link = .ok s' := by
  have hdraft := layOut_drawn (hrefers.distinct hspec)
  refine exists_link fun type' htype' target hkind' => ?_
  obtain ⟨p', z', hz', -, -, hlays'⟩ := hdraft.draws type' htype'
  rw [hkind'] at hlays'
  obtain ⟨p, z, hmirrors, hz⟩ := hrefers.exists_mirrors hz'
  obtain ⟨z'', hz'', hsame⟩ := hrefers.sameTop hz hmirrors
  obtain rfl := Option.some.inj (hz'.symm.trans hz'')
  have hkind : z.kind = .ref target := by
    generalize z'.kind = k' at hlays' hsame
    generalize z.kind = k at hsame ⊢
    cases hlays' with
    | ref heq =>
      subst heq
      cases hsame
      rfl
  obtain ⟨place, named, hplace, hpointer⟩ := exists_target hdrawn hz hkind
  obtain ⟨named', hplace', -⟩ := hrefers.presence_eq hplace (.inl rfl)
  obtain ⟨id, hid⟩ := hdraft.exists_id hplace'
  exact ⟨id, by rwa [Named, ← hpointer]⟩

/-! ## Main statement -/

/-- Every reference of a spec that compiles names a node, and may be replaced by the kind of that
node, if it is not computed: the spec still compiles, each value is stored the same or refused with
the same error at the root, wherever the root stands, and the minimal value is the same. -/
theorem compile_unfolded (hspec : spec.Distinct) (hs : (compile spec).1 = .ok s) {optional : Bool}
    {default : Option Json} {target : String}
    (hq : spec.node? q = some (.mk optional default (.ref target))) :
    ∃ t named, spec.node? t = some named ∧ t.pointer = normalizeTarget target
      ∧ (named.isComputed = false → ∃ s', (compile (withKind named.kind q spec)).1 = .ok s'
        ∧ (∀ v path, s'.instantiate s'.root v path = s.instantiate s.root v path)
        ∧ s'.minimalValue s'.root = s.minimalValue s.root) := by
  have hwell := compile_wellFormed hspec hs
  obtain ⟨linked, hlink, hchecked⟩ := bind_eq_ok.1 hs
  obtain ⟨rfl, -, hendless, hdefaults⟩ := checked_eq_ok.1 hchecked
  obtain ⟨hroot, hdrawn⟩ := link_drawn (layOut_drawn hspec) hlink
  obtain ⟨t, named, ht, hpointer⟩ := exists_target hdrawn hq rfl
  refine ⟨t, named, ht, hpointer, fun hstored => ?_⟩
  have hrefers : spec.Refers q t (.mk optional default (.ref target)) named :=
    ⟨hq, ⟨target, rfl, hpointer⟩, ht, hstored⟩
  have hspec' : (withKind named.kind q spec).Distinct := hrefers.distinct hspec
  obtain ⟨s', hlink'⟩ := exists_link_unfolded hrefers hspec hdrawn
  obtain ⟨hroot', hdrawn'⟩ := link_drawn (layOut_drawn hspec') hlink'
  have hunfolds : Unfolds spec q t (.mk optional default (.ref target)) named s s' :=
    ⟨hrefers, hdrawn, hdrawn'⟩
  have hexpandable := expandable_of_checkDefaults hdefaults
  have hchecked' : s'.checked = .ok s' :=
    checked_eq_ok.2 ⟨rfl, hunfolds.firstCircular?_eq_none hwell,
      hunfolds.firstEndless?_eq_none hwell hendless, hunfolds.checkDefaults_eq_ok hwell hexpandable⟩
  have hs' : (compile (withKind named.kind q spec)).1 = .ok s' :=
    bind_eq_ok.2 ⟨s', hlink', hchecked'⟩
  have hroots : Continued spec q t s s' s.root s'.root := by
    rw [hroot, hroot']
    exact ⟨[], [], .inl rfl, ⟨spec, rfl⟩, hdrawn.root, hdrawn'.root⟩
  exact ⟨s', hs', hunfolds.instantiate_eq hwell hexpandable hroots,
    hunfolds.minimalValue_eq hwell (compile_wellFormed hspec' hs') hendless hroots⟩

end Schema

/-! ## A chain of stops -/

namespace Route

/-- A stop may lead on to a further stop. -/
def stop : PropertySpec :=
  let next := PropertySpec.ofKind (.ref "#/properties/stop")
  .object [("name", (PropertySpec.ofKind .string).required), ("next", next)]

/-- A route starts at a stop, by a reference to what is declared behind it. -/
def spec : PropertySpec :=
  let start := PropertySpec.ofKind (.ref "#/properties/stop/")
  .object [("start", start.required), ("stop", stop)]

def schema : Schema where
  types := [
    ⟨"#", .optional, .object ⟨[("start", 1), ("stop", 2)], []⟩⟩,
    ⟨"#/properties/start", .required, .ref 2⟩,
    ⟨"#/properties/stop", .optional, .object ⟨[("name", 3), ("next", 4)], []⟩⟩,
    ⟨"#/properties/stop/properties/name", .required, .string⟩,
    ⟨"#/properties/stop/properties/next", .optional, .ref 2⟩]
  root := 0

theorem distinct : spec.Distinct := by
  simp [spec, stop, PropertySpec.object, PropertySpec.ofKind, PropertySpec.required,
    Members.ofList, Members.set, PropertySpec.Distinct, SpecKind.Distinct,
    PropertySpec.DistinctAll]

theorem compile_eq : (Schema.compile spec).1 = .ok schema := by
  have hlink : (Schema.layOut "#" 0 spec).link = .ok schema := rfl
  have hendless : schema.firstEndless? = none := by
    simp [Schema.firstEndless?, Schema.entangled, Schema.needsOneOf, Schema.requiredTypes,
      Schema.descriptor, Schema.presence, Presence.isRequired, Schema.size, schema, Schema.resolve,
      Schema.follow, List.range_succ]
  have hchecked : schema.checked = .ok schema :=
    Schema.checked_eq_ok.2 ⟨rfl, rfl, hendless, rfl⟩
  exact bind_eq_ok.2 ⟨schema, hlink, hchecked⟩

/-- The stop after a stop may be written out once more. -/
theorem compile_unfolded_next : spec.Distinct ∧ (Schema.compile spec).1 = .ok schema
    ∧ ∃ s', (Schema.compile
        (withKind stop.kind [.property "stop", .property "next"] spec)).1 = .ok s'
      ∧ (∀ v path, s'.instantiate s'.root v path = schema.instantiate schema.root v path)
      ∧ s'.minimalValue s'.root = schema.minimalValue schema.root := by
  refine ⟨distinct, compile_eq, ?_⟩
  have hnext : spec.node? [.property "stop", .property "next"]
      = some (.mk true none (.ref "#/properties/stop")) := by
    rfl
  have hstop : spec.node? [.property "stop"] = some stop := by
    rfl
  obtain ⟨t, named, ht, hpointer, hunfolded⟩ :=
    Schema.compile_unfolded distinct compile_eq hnext
  have hspelled : SpecPlace.pointer [.property "stop"]
      = Schema.normalizeTarget "#/properties/stop" := by
    rfl
  obtain rfl := SpecPlace.pointer_injective (hspelled.trans hpointer.symm)
  obtain rfl := Option.some.inj (hstop.symm.trans ht)
  exact hunfolded rfl

end Route

end BoundView
