import BoundView.Proofs.Schema.Circles
import BoundView.Proofs.Schema.Conforming
import Mathlib.Logic.Function.Iterate

/-!
# Objects without end

An object type whose required fields lead back to it has no value that can be written down.  Main
statement: the search for such types finds them and no others, names the first of them, and refuses
no schema in vain, since there is nothing that the named type would accept.
-/

namespace BoundView.Schema

variable {s : Schema} {id : TypeId}

/-! ## Finite values of object types -/

/-- Whether an object type has a finite value: each of its required fields leads to a type that is
no object, or to one that has such a value. -/
inductive HasFinite (s : Schema) : TypeId → Prop where
  | object {id : TypeId} {type : ObjectType} (hkind : (s.descriptor id).kind = .object type)
      (hfields : ∀ field ∈ type.fields, (s.presence field.2).isRequired = true →
        ∀ part, s.kind field.2 = .object part → HasFinite s (s.resolve field.2)) : HasFinite s id

/-- An object type without a finite value. -/
def Endless (s : Schema) (id : TypeId) : Prop :=
  (∃ type, (s.descriptor id).kind = .object type) ∧ ¬s.HasFinite id

theorem Endless.exists_required (h : s.Endless id) :
    ∃ type field, (s.descriptor id).kind = .object type ∧ field ∈ type.fields
      ∧ (s.presence field.2).isRequired = true ∧ s.Endless (s.resolve field.2) := by
  obtain ⟨⟨type, hkind⟩, hnot⟩ := h
  by_contra hnone
  refine hnot (.object hkind fun field hfield hrequired part hpart => ?_)
  by_contra hfield'
  exact hnone ⟨type, field, hkind, hfield, hrequired, ⟨part, hpart⟩, hfield'⟩

/-! ## The search -/

/-- One round of the search: types that need none of the others are taken out. -/
def sift (s : Schema) (ids : List TypeId) : List TypeId :=
  ids.filter fun id => s.needsOneOf ids id

/-- The search is over after so many rounds at most as it started with types, and one more would
change nothing. -/
theorem exists_rounds (s : Schema) (ids : List TypeId) : ∃ n ≤ ids.length,
    s.entangled ids = s.sift^[n] ids ∧ s.sift (s.entangled ids) = s.entangled ids := by
  induction ids using WellFounded.induction (measure List.length).wf with
  | _ ids ih =>
    rw [entangled]
    split
    · rename_i hlt
      obtain ⟨n, hn, hrounds, hstill⟩ := ih _ hlt
      exact ⟨n + 1, Nat.lt_of_le_of_lt hn hlt, hrounds, hstill⟩
    · rename_i hlt
      refine ⟨0, Nat.zero_le _, rfl, List.filter_sublist.eq_of_length_le ?_⟩
      exact Nat.le_of_not_lt hlt

/-- What has a finite value is taken out at some time. -/
theorem HasFinite.not_mem_entangled (h : s.HasFinite id) (ids : List TypeId) :
    id ∉ s.entangled ids := by
  obtain ⟨-, hneeds⟩ := s.entangled_needs ids
  induction h with
  | object hkind _ ih =>
    intro hid
    obtain ⟨type, field, hkind', hfield, hrequired, hpart⟩ := exists_of_needsOneOf (hneeds _ hid)
    obtain rfl := TypeKind.object.inj (hkind.symm.trans hkind')
    -- The part is left as well, so that it is an object too.
    obtain ⟨part, -, hobject, -⟩ := exists_of_needsOneOf (hneeds _ hpart)
    exact ih field hfield hrequired part hobject hpart

theorem mem_entangled : id ∈ s.entangled (List.range s.size) ↔ s.Endless id := by
  constructor
  · intro hid
    obtain ⟨-, hneeds⟩ := s.entangled_needs (List.range s.size)
    obtain ⟨type, -, hkind, -⟩ := exists_of_needsOneOf (hneeds id hid)
    exact ⟨⟨type, hkind⟩, fun hfinite => hfinite.not_mem_entangled _ hid⟩
  · exact mem_entangled_of_required fun id hid => hid.exists_required

theorem firstEndless?_eq_some : s.firstEndless? = some id ↔
    s.Endless id ∧ ∀ before < id, ¬s.Endless before := by
  have hsorted : (s.entangled (List.range s.size)).Pairwise (· < ·) :=
    List.pairwise_lt_range.sublist (s.entangled_needs _).1
  simp only [← mem_entangled, firstEndless?]
  cases hids : s.entangled (List.range s.size) with
  | nil => exact iff_of_false (fun h => (nomatch h)) fun h => List.not_mem_nil h.1
  | cons first rest =>
    rw [hids] at hsorted
    have hlt := (List.pairwise_cons.1 hsorted).1
    rw [List.head?_cons, Option.some_inj]
    constructor
    · rintro rfl
      refine ⟨List.mem_cons_self, fun before hbefore hmem => ?_⟩
      rcases List.mem_cons.1 hmem with rfl | hmem
      · exact Nat.lt_irrefl _ hbefore
      · exact Nat.lt_asymm hbefore (hlt before hmem)
    · rintro ⟨hid, hnone⟩
      rcases List.mem_cons.1 hid with rfl | hid
      · rfl
      · exact absurd List.mem_cons_self (hnone first (hlt id hid))

theorem exists_firstEndless?_eq_some :
    (∃ id, s.firstEndless? = some id) ↔ ∃ id, s.Endless id := by
  rw [← Option.isSome_iff_exists, ← Option.ne_none_iff_isSome, ne_eq, firstEndless?_eq_none,
    List.eq_nil_iff_forall_not_mem]
  simp only [mem_entangled, not_forall, not_not]

/-! ## Values of endless types -/

/-- The values of an object type that conform are finite themselves. -/
theorem Conforms.hasFinite (hs : s.WellFormed) {v : Json} (h : s.Conforms id v) {type : ObjectType}
    (hkind : s.kind id = .object type) : s.HasFinite (s.resolve id) := by
  induction h generalizing type with
  | any hkind' | string hkind' | boolean hkind' | number hkind' | array hkind' =>
    exact nomatch hkind.symm.trans hkind'
  | @object id type' ms hkind' hnodup hdeclared hmembers habsent ih =>
    obtain rfl := TypeKind.object.inj (hkind.symm.trans hkind')
    have hnames := hs.fields_nodup hkind
    refine .object hkind fun field hfield hrequired part hpart => ?_
    have hfind := Members.find?_of_mem hnames hfield
    cases hvalue : Members.find? field.1 ms with
    | some value => exact ih field.1 field.2 value hfind hvalue hpart
    | none =>
      -- A required field of an object type may not be left out.
      have hknown : (s.kind field.2).isAny = false := by
        rw [hpart]
        rfl
      exact absurd (habsent field.1 field.2 hfind hvalue) (not_mayBeAbsent hrequired hknown)

theorem Endless.instantiate_error (h : s.Endless id) (hs : s.WellFormed) (v : Json) (path : Path) :
    ∃ e, s.instantiate id v path = .error e := by
  obtain ⟨⟨type, hkind⟩, hnot⟩ := h
  have hno : (s.descriptor id).kind.isRef = false := by
    rw [hkind]
    rfl
  cases hout : s.instantiate id v path with
  | error e => exact ⟨e, rfl⟩
  | ok out =>
    have hfinite := (instantiate_conforms hs hout).hasFinite hs ((kind_of_isRef hno).trans hkind)
    rw [resolve, follow_of_isRef hno] at hfinite
    exact absurd hfinite hnot

/-! ## Main statement -/

variable {spec : PropertySpec}

theorem compile_eq_requiredCycle {pointer : String} (hlink : (layOut "#" 0 spec).link = .ok s)
    (hcircular : s.firstCircular? = none) :
    (compile spec).1 = .error (.requiredCycle pointer)
      ↔ ∃ id, s.firstEndless? = some id ∧ pointer = s.pointer id := by
  have hcompile : (compile spec).1 = s.checked := by
    show (layOut "#" 0 spec).link.bind checked = s.checked
    rw [hlink]
    rfl
  rw [hcompile, checked_eq_error]
  constructor
  · rintro (⟨id, hid, -⟩ | ⟨-, id, hid, hcause⟩ | ⟨-, -, hdefaults⟩)
    · exact nomatch hcircular.symm.trans hid
    · exact ⟨id, hid, CompileError.requiredCycle.inj hcause⟩
    · obtain ⟨id, cause, hcause⟩ := checkDefaults_eq_error hdefaults
      exact nomatch hcause
  · rintro ⟨id, hid, rfl⟩
    exact .inr (.inl ⟨hcircular, id, hid, rfl⟩)

/-- Where all references name nodes, and lead to types that are none, the compiler reports a circle
of requirements just if some object type has no finite value.  It names the first such type, and no
value at all is accepted for that.  The search for it ends on every schema. -/
theorem compile_endless (hspec : spec.Distinct) (hnamed : spec.RefsNamed) (hends : spec.RefsEnd) :
    ∃ s, (layOut "#" 0 spec).link = .ok s
      ∧ ((∃ pointer, (compile spec).1 = .error (.requiredCycle pointer)) ↔ ∃ id, s.Endless id)
      ∧ (∀ pointer, (compile spec).1 = .error (.requiredCycle pointer) →
        ∃ id, pointer = s.pointer id ∧ s.Endless id ∧ (∀ before < id, ¬s.Endless before)
          ∧ ∀ v path, ∃ e, s.instantiate id v path = .error e)
      ∧ ∀ (s : Schema) (ids : List TypeId), ∃ n ≤ ids.length,
        s.entangled ids = s.sift^[n] ids ∧ s.sift (s.entangled ids) = s.entangled ids := by
  obtain ⟨s, hlink⟩ := (exists_link_iff hspec).2 hnamed
  have hcircular := (firstCircular?_eq_none_iff_refsEnd hspec hlink).2 hends
  have hs := link_wellFormed hspec hlink hcircular
  refine ⟨s, hlink, ?_, fun pointer hcompile => ?_, exists_rounds⟩
  · simp only [compile_eq_requiredCycle hlink hcircular, ← exists_firstEndless?_eq_some]
    exact ⟨fun ⟨_, id, hid, _⟩ => ⟨id, hid⟩, fun ⟨id, hid⟩ => ⟨s.pointer id, id, hid, rfl⟩⟩
  · obtain ⟨id, hid, rfl⟩ := (compile_eq_requiredCycle hlink hcircular).1 hcompile
    obtain ⟨hendless, hfirst⟩ := firstEndless?_eq_some.1 hid
    exact ⟨id, rfl, hendless, hfirst, hendless.instantiate_error hs⟩

end BoundView.Schema

/-! ## The hen and the egg -/

namespace BoundView.Hatchery

/-- A hen needs the egg that it came from, and an egg the hen that laid it. -/
def spec : PropertySpec :=
  let parent (target : String) := (PropertySpec.ofKind (.ref target)).required
  .object [("hen", .object [("egg", parent "#/properties/egg")]),
    ("egg", .object [("hen", parent "#/properties/hen")])]

def linked : Schema where
  types := [
    ⟨"#", .optional, .object ⟨[("hen", 1), ("egg", 3)], []⟩⟩,
    ⟨"#/properties/hen", .optional, .object ⟨[("egg", 2)], []⟩⟩,
    ⟨"#/properties/hen/properties/egg", .required, .ref 3⟩,
    ⟨"#/properties/egg", .optional, .object ⟨[("hen", 4)], []⟩⟩,
    ⟨"#/properties/egg/properties/hen", .required, .ref 1⟩]
  root := 0

theorem distinct : spec.Distinct := by
  simp [spec, PropertySpec.object, PropertySpec.ofKind, PropertySpec.required, Members.ofList,
    Members.set, PropertySpec.Distinct, SpecKind.Distinct, PropertySpec.DistinctAll]

theorem endless_hen : linked.Endless 1 := by
  have hneed : ∀ id, id = 1 ∨ id = 3 → ∃ type field,
      (linked.descriptor id).kind = .object type ∧ field ∈ type.fields
        ∧ (linked.presence field.2).isRequired = true
        ∧ (linked.resolve field.2 = 1 ∨ linked.resolve field.2 = 3) := by
    rintro id (rfl | rfl)
    · exact ⟨_, ("egg", 2), rfl, List.mem_singleton_self _, rfl, .inr rfl⟩
    · exact ⟨_, ("hen", 4), rfl, List.mem_singleton_self _, rfl, .inl rfl⟩
  exact Schema.mem_entangled.1 (Schema.mem_entangled_of_required hneed (.inl rfl))

/-- Neither of the two may come first. -/
theorem compile_hen : spec.Distinct ∧ spec.RefsNamed ∧ spec.RefsEnd
    ∧ ∃ pointer, (Schema.compile spec).1 = .error (.requiredCycle pointer) := by
  have hlink : (Schema.layOut "#" 0 spec).link = .ok linked := rfl
  have hnamed := (Schema.exists_link_iff distinct).1 ⟨linked, hlink⟩
  have hends := (Schema.firstCircular?_eq_none_iff_refsEnd distinct hlink).1 rfl
  obtain ⟨s, hs, hexact, -⟩ := Schema.compile_endless distinct hnamed hends
  obtain rfl := Except.ok.inj (hlink.symm.trans hs)
  exact ⟨distinct, hnamed, hends, hexact.2 ⟨1, endless_hen⟩⟩

end BoundView.Hatchery
