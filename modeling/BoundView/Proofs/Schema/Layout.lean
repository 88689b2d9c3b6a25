import BoundView.Schema.Compile
import BoundView.Proofs.Members
import BoundView.Proofs.Outcome
import Mathlib.Data.List.GetD
import Mathlib.Data.List.Nodup

/-!
# Compiled schemas

Every place that a type of a compiled schema mentions is a place of the schema, and the fields of an
object, stored and computed, have different names, provided that no object of the spec declares a
name twice.  A spec that was read from a document never does.
-/

namespace BoundView

open Outcome (bind_eq_ok bind_eq_error)

/-! ## Specs -/

mutual

/-- No object declares a name twice. -/
def PropertySpec.Distinct : PropertySpec → Prop
  | .mk _ _ kind => SpecKind.Distinct kind

def SpecKind.Distinct : SpecKind → Prop
  | .array items => PropertySpec.Distinct items
  | .object properties =>
    (properties.map Prod.fst).Nodup ∧ PropertySpec.DistinctAll properties
  | _ => True

def PropertySpec.DistinctAll : List (String × PropertySpec) → Prop
  | [] => True
  | (_, spec) :: rest => PropertySpec.Distinct spec ∧ PropertySpec.DistinctAll rest

end

theorem PropertySpec.distinctAll_iff {properties : List (String × PropertySpec)} :
    PropertySpec.DistinctAll properties ↔ ∀ pair ∈ properties, pair.2.Distinct := by
  induction properties with
  | nil => exact iff_of_true trivial fun _ hmem => absurd hmem List.not_mem_nil
  | cons first rest ih =>
    rw [List.forall_mem_cons, ← ih]
    exact Iff.rfl

/-- The places that a kind mentions, references aside. -/
def TypeKind.parts {ρ : Type} : TypeKind ρ → List TypeId
  | .array items => [items]
  | .object type => type.fields.map Prod.snd
  | _ => []

/-- The names of an object type, those of stored fields and those of computed ones. -/
def ObjectType.names (type : ObjectType) : List String :=
  type.fields.map Prod.fst ++ type.computed.map Prod.fst

namespace Schema

/-! ## Layout -/

/-- A type whose parts lie from `first` up to below `last`, with different names if it is an
object. -/
def TidyType {ρ : Type} (first last : Nat) (type : TypeDescriptor ρ) : Prop :=
  (∀ id ∈ type.kind.parts, first ≤ id ∧ id < last)
    ∧ ∀ object, type.kind = .object object → object.names.Nodup

theorem TidyType.mono {ρ : Type} {first last first' last' : Nat} {type : TypeDescriptor ρ}
    (h : TidyType first last type) (hfirst : first' ≤ first) (hlast : last ≤ last') :
    TidyType first' last' type :=
  ⟨fun id hid => ⟨Nat.le_trans hfirst (h.1 id hid).1, Nat.lt_of_lt_of_le (h.1 id hid).2 hlast⟩, h.2⟩

mutual

theorem layOut_tidy (pointer : String) (next : Nat) :
    ∀ spec : PropertySpec, spec.Distinct → 0 < (layOut pointer next spec).types.length
      ∧ ∀ type ∈ (layOut pointer next spec).types,
        TidyType next (next + (layOut pointer next spec).types.length) type
  | .mk optional default kind, h => by
    cases kind with
    | array items =>
      obtain ⟨hpos, hitems⟩ := layOut_tidy (itemsPointer pointer) (next + 1) items h
      rw [layOut]
      generalize layOut (itemsPointer pointer) (next + 1) items = draft at hpos hitems ⊢
      refine ⟨Nat.succ_pos _, fun type htype => ?_⟩
      rcases List.mem_cons.1 htype with rfl | htype
      · refine ⟨fun id hid => ?_, fun object hobject => nomatch hobject⟩
        rw [List.mem_singleton.1 hid]
        exact ⟨Nat.le_succ next, Nat.add_lt_add_left (Nat.succ_lt_succ hpos) next⟩
      · exact (hitems type htype).mono (Nat.le_succ next) (by simp [Draft.above]; omega)
    | object properties =>
      obtain ⟨hfields, hnames, htypes⟩ := layOutFields_tidy pointer (next + 1) properties h.2
      rw [layOut]
      generalize layOutFields pointer (next + 1) properties = drafts at hfields hnames htypes ⊢
      have hlength : next + 1 + drafts.2.types.length ≤ next + (drafts.2.types.length + 1) := by
        omega
      refine ⟨Nat.succ_pos _, fun type htype => ?_⟩
      rcases List.mem_cons.1 htype with rfl | htype
      · refine ⟨fun id hid => ?_, fun object hobject => ?_⟩
        · obtain ⟨hfirst, hlast⟩ := hfields id hid
          exact ⟨Nat.le_of_succ_le hfirst, Nat.lt_of_lt_of_le hlast hlength⟩
        · obtain rfl := TypeKind.object.inj hobject
          exact hnames.nodup_iff.2 h.1
      · exact (htypes type htype).mono (Nat.le_succ next) hlength
    | string | number | boolean | ref | computed | unknown =>
      simp [layOut, Draft.leaf, TidyType, TypeKind.parts]

theorem layOutFields_tidy (pointer : String) (next : Nat) :
    ∀ properties : List (String × PropertySpec), PropertySpec.DistinctAll properties →
      (∀ id ∈ (layOutFields pointer next properties).1.fields.map Prod.snd,
        next ≤ id ∧ id < next + (layOutFields pointer next properties).2.types.length)
      ∧ (layOutFields pointer next properties).1.names.Perm (properties.map Prod.fst)
      ∧ ∀ type ∈ (layOutFields pointer next properties).2.types,
        TidyType next (next + (layOutFields pointer next properties).2.types.length) type
  | [], _ => by simp [layOutFields, ObjectType.names]
  | (name, .mk optional default kind) :: rest, h => by
    -- A computed field takes no place, and any other one takes the next places.
    by_cases hcomputed : ∃ expression, kind = .computed expression
    · obtain ⟨expression, rfl⟩ := hcomputed
      obtain ⟨hfields, hnames, htypes⟩ := layOutFields_tidy pointer next rest h.2
      -- The computed names stand behind the stored ones, so the order is not that of the spec.
      rw [layOutFields]
      generalize layOutFields pointer next rest = drafts at hfields hnames htypes ⊢
      refine ⟨hfields, ?_, htypes⟩
      exact List.perm_middle.trans (hnames.cons name)
    · obtain ⟨hpos, hfirst⟩ :=
        layOut_tidy (fieldPointer pointer name) next (.mk optional default kind) h.1
      have hrest := layOutFields_tidy pointer
        (next + (layOut (fieldPointer pointer name) next (.mk optional default kind)).types.length)
        rest h.2
      rw [layOutFields]
      · generalize layOut (fieldPointer pointer name) next (.mk optional default kind) = first
          at hpos hfirst hrest ⊢
        generalize layOutFields pointer (next + first.types.length) rest = drafts at hrest ⊢
        obtain ⟨hfields, hnames, htypes⟩ := hrest
        have hlength : (first.append drafts.2).types.length
            = first.types.length + drafts.2.types.length := List.length_append
        refine ⟨fun id hid => ?_, hnames.cons name, fun type htype => ?_⟩
        · show next ≤ id ∧ id < next + (first.append drafts.2).types.length
          rw [hlength]
          rcases List.mem_cons.1 hid with heq | hid
          · rw [show id = next from heq]
            exact ⟨Nat.le_refl next, Nat.lt_add_of_pos_right (Nat.add_pos_left hpos _)⟩
          · obtain ⟨hle, hlt⟩ := hfields id hid
            exact ⟨Nat.le_trans (Nat.le_add_right ..) hle, by rwa [← Nat.add_assoc]⟩
        · show TidyType next (next + (first.append drafts.2).types.length) type
          rw [hlength]
          rcases List.mem_append.1 htype with htype | htype
          · exact (hfirst type htype).mono (Nat.le_refl _) (by omega)
          · exact (htypes type htype).mono (Nat.le_add_right ..) (by omega)
      · exact fun expression heq => hcomputed ⟨expression, heq⟩

end

/-! ## Linking -/

theorem linkType_eq_ok {d : Draft} {type : TypeDescriptor String} {type' : TypeDescriptor TypeId}
    (h : d.linkType type = .ok type') :
    type'.kind.parts = type.kind.parts
      ∧ (∀ object, type'.kind = .object object → type.kind = .object object)
      ∧ ∀ target, type'.kind = .ref target → target < d.types.length := by
  obtain ⟨kind, hkind, h⟩ := bind_eq_ok.1 h
  obtain rfl := Except.ok.inj h
  unfold Draft.linkKind at hkind
  split at hkind
  -- A reference is the one kind that linking changes.
  case h_7 target heq =>
    dsimp only at hkind
    split at hkind
    · rename_i id hid
      obtain rfl := Except.ok.inj hkind
      obtain ⟨hlt, -⟩ := List.findIdx?_eq_some_iff_getElem.1 hid
      rw [heq]
      exact ⟨rfl, fun object hobject => (nomatch hobject),
        fun target htarget => TypeKind.ref.inj htarget ▸ hlt⟩
    · split at hkind <;> exact nomatch hkind
  all_goals
    rename_i heq
    obtain rfl := Except.ok.inj hkind
    rw [heq]
    refine ⟨rfl, fun object hobject => ?_, fun target htarget => (nomatch htarget)⟩
    cases hobject <;> rfl

/-- Linking fails only for a reference that leads nowhere. -/
theorem link_eq_error {d : Draft} {e : CompileError} (h : d.link = .error e) :
    ∃ pointer target, e = .refToComputed pointer target ∨ e = .unresolvedRef pointer target := by
  rcases bind_eq_error.1 h with htypes | ⟨types, -, h⟩
  · obtain ⟨type, -, htype⟩ := Outcome.mapM_eq_error htypes
    rcases bind_eq_error.1 htype with hkind | ⟨kind, -, h⟩
    · unfold Draft.linkKind at hkind
      split at hkind
      case h_7 target heq =>
        dsimp only at hkind
        split at hkind
        · exact nomatch hkind
        · split at hkind
          · exact ⟨type.pointer, target, .inl (Except.error.inj hkind).symm⟩
          · exact ⟨type.pointer, target, .inr (Except.error.inj hkind).symm⟩
      all_goals exact nomatch hkind
    · exact nomatch h
  · exact nomatch h

theorem follow_lt {s : Schema}
    (hrefs : ∀ type ∈ s.types, ∀ target, type.kind = .ref target → target < s.size) (n id : Nat)
    (hid : id < s.size) : s.follow n id < s.size := by
  induction n generalizing id with
  | zero => exact hid
  | succ n ih =>
    rw [follow]
    split
    · rename_i target hkind
      refine ih target (hrefs (s.descriptor id) ?_ target hkind)
      rw [descriptor, List.getD_eq_getElem _ _ hid]
      exact List.getElem_mem hid
    · exact hid

theorem descriptor_of_le (s : Schema) (id : Nat) (hid : s.size ≤ id) :
    s.descriptor id = ⟨"", .optional, .any ""⟩ :=
  List.getD_eq_default _ _ hid

theorem follow_of_le (s : Schema) (n id : Nat) (hid : s.size ≤ id) : s.follow n id = id := by
  cases n with
  | zero => rfl
  | succ n => rw [follow, descriptor_of_le s id hid]

theorem kind_of_le (s : Schema) (id : Nat) (hid : s.size ≤ id) : s.kind id = .any "" := by
  rw [kind, resolve, follow_of_le s _ id hid, descriptor_of_le s id hid]

/-! ## Types one step down -/

section

variable {s : Schema} {id child items : TypeId} {type : ObjectType} {name : String} {seg : Seg}

theorem stepType_field (h : s.stepType id (.field name) = some child) :
    ∃ type, s.kind id = .object type ∧ Members.find? name type.fields = some child := by
  obtain ⟨type, htype, hfind⟩ := Option.bind_eq_some_iff.1 h
  unfold object? at htype
  cases hkind : s.kind id with
  | object type' =>
    rw [hkind] at htype
    obtain rfl := Option.some.inj htype
    exact ⟨type', rfl, hfind⟩
  | string | number | boolean | array | ref | any =>
    rw [hkind] at htype
    exact nomatch htype

theorem stepType_of_find? (hkind : s.kind id = .object type)
    (hfind : Members.find? name type.fields = some child) :
    s.stepType id (.field name) = some child := by
  rw [stepType, object?, hkind]
  exact hfind

theorem stepType_index {i : Nat} (h : s.stepType id (.index i) = some child) :
    s.kind id = .array child := by
  unfold stepType at h
  cases hkind : s.kind id with
  | array items =>
    rw [hkind] at h
    exact congrArg TypeKind.array (Option.some.inj h)
  | string | number | boolean | object | ref | any =>
    rw [hkind] at h
    exact nomatch h

theorem stepType_of_array {i : Nat} (hkind : s.kind id = .array items) :
    s.stepType id (.index i) = some items := by
  rw [stepType, hkind]

theorem mem_parts_of_stepType (h : s.stepType id seg = some child) :
    child ∈ (s.kind id).parts := by
  cases seg with
  | field name =>
    obtain ⟨type, hkind, hfind⟩ := stepType_field h
    rw [hkind]
    exact List.mem_map.2 ⟨(name, child), Members.mem_of_find? hfind, rfl⟩
  | index i =>
    rw [stepType_index h]
    exact List.mem_singleton_self child

end

/-! ## Compiled schemas -/

/-- A schema in which every place leads to a type that is none of the references, every place that a
type mentions is a place of the schema, and no object has two fields of one name. -/
structure WellFormed (s : Schema) : Prop where
  root_lt : s.root < s.size
  kind_mem : ∀ id, id < s.size → ∃ type ∈ s.types, s.kind id = type.kind
  isRef_eq_false : ∀ id, (s.kind id).isRef = false
  part_lt : ∀ id, ∀ part ∈ (s.kind id).parts, part < s.size
  names_nodup : ∀ id type, s.kind id = .object type → type.names.Nodup

theorem WellFormed.fields_nodup {s : Schema} (hs : s.WellFormed) {id : TypeId} {type : ObjectType}
    (hkind : s.kind id = .object type) : (type.fields.map Prod.fst).Nodup :=
  (List.nodup_append.1 (hs.names_nodup id type hkind)).1

/-- Of the types one step down none lies outside. -/
theorem WellFormed.stepType_lt {s : Schema} (hs : s.WellFormed) {id child : TypeId} {seg : Seg}
    (h : s.stepType id seg = some child) : child < s.size :=
  hs.part_lt id child (mem_parts_of_stepType h)

theorem link_eq_ok {d : Draft} {s : Schema}
    (htypes : ∀ type ∈ d.types, TidyType 0 d.types.length type) (h : d.link = .ok s) :
    s.root = 0 ∧ s.size = d.types.length ∧ ∀ type ∈ s.types, TidyType 0 s.size type
      ∧ ∀ target, type.kind = .ref target → target < s.size := by
  obtain ⟨types, hlink, h⟩ := bind_eq_ok.1 h
  obtain rfl := Except.ok.inj h
  have hlinked := Outcome.mapM_eq_ok hlink
  have hsize : types.length = d.types.length := hlinked.length_eq.symm
  refine ⟨rfl, hsize, fun type htype => ?_⟩
  obtain ⟨i, hi, rfl⟩ := List.getElem_of_mem htype
  obtain ⟨hparts, hobject, hrefs⟩ := linkType_eq_ok (hlinked.get (hsize ▸ hi) hi)
  obtain ⟨hpart, hnames⟩ := htypes _ (List.get_mem d.types ⟨i, hsize ▸ hi⟩)
  show TidyType 0 types.length types[i] ∧ ∀ target, _ → target < types.length
  rw [hsize]
  exact ⟨⟨hparts ▸ hpart, fun object h => hnames object (hobject object h)⟩, hrefs⟩

theorem checkDefaults_eq_ok {s : Schema} {ids : List TypeId} :
    s.checkDefaults ids = .ok () ↔ ∀ id ∈ ids, ∀ value, s.presence id = .defaulted value →
      ∃ out, s.instantiate id value [] = .ok out := by
  induction ids with
  | nil => exact ⟨fun _ id hid => absurd hid List.not_mem_nil, fun _ => rfl⟩
  | cons id rest ih =>
    rw [checkDefaults, List.forall_mem_cons, ← ih]
    cases hpresence : s.presence id with
    | required | optional =>
      exact ⟨fun h => ⟨fun value heq => (nomatch heq), h⟩, fun h => h.2⟩
    | defaulted value =>
      dsimp only
      cases hout : s.instantiate id value [] with
      | error cause =>
        refine ⟨fun h => (nomatch h), fun h => ?_⟩
        obtain ⟨out, hok⟩ := h.1 value rfl
        exact nomatch hout.symm.trans hok
      | ok out =>
        refine ⟨fun h => ⟨fun value' heq => ⟨out, ?_⟩, h⟩, fun h => h.2⟩
        rw [← Presence.defaulted.inj heq, hout]

/-- The checks that a schema has to pass. -/
theorem checked_eq_ok {s s' : Schema} : s.checked = .ok s' ↔ s' = s ∧ s.firstCircular? = none
    ∧ s.firstEndless? = none ∧ s.checkDefaults (List.range s.size) = .ok () := by
  unfold checked
  cases hcircular : s.firstCircular? with
  | some id => exact ⟨fun h => (nomatch h), fun h => (nomatch h.2.1)⟩
  | none =>
    cases hendless : s.firstEndless? with
    | some id => exact ⟨fun h => (nomatch h), fun h => (nomatch h.2.2.1)⟩
    | none =>
      constructor
      · intro h
        obtain ⟨_, hdefaults, h⟩ := bind_eq_ok.1 h
        exact ⟨(Except.ok.inj h).symm, rfl, rfl, hdefaults⟩
      · rintro ⟨rfl, _, _, hdefaults⟩
        exact bind_eq_ok.2 ⟨(), hdefaults, rfl⟩

theorem checkDefaults_eq_error {s : Schema} {ids : List TypeId} {e : CompileError}
    (h : s.checkDefaults ids = .error e) :
    ∃ id cause, e = .invalidDefault (s.pointer id) cause := by
  induction ids with
  | nil => exact nomatch h
  | cons id rest ih =>
    rw [checkDefaults] at h
    cases hpresence : s.presence id with
    | required | optional =>
      rw [hpresence] at h
      exact ih h
    | defaulted value =>
      rw [hpresence] at h
      dsimp only at h
      cases hout : s.instantiate id value [] with
      | error cause =>
        rw [hout] at h
        exact ⟨id, cause, (Except.error.inj h).symm⟩
      | ok out =>
        rw [hout] at h
        exact ih h

/-- The checks that a schema may fail: circles of references come first, then endless objects. -/
theorem checked_eq_error {s : Schema} {e : CompileError} : s.checked = .error e ↔
    (∃ id, s.firstCircular? = some id ∧ e = .refCycle (s.pointer id))
    ∨ (s.firstCircular? = none ∧ ∃ id, s.firstEndless? = some id ∧
      e = .requiredCycle (s.pointer id))
    ∨ (s.firstCircular? = none ∧ s.firstEndless? = none
      ∧ s.checkDefaults (List.range s.size) = .error e) := by
  unfold checked
  cases hcircular : s.firstCircular? with
  | some id =>
    refine ⟨fun h => .inl ⟨id, rfl, (Except.error.inj h).symm⟩, ?_⟩
    rintro (⟨id', hid, rfl⟩ | ⟨hnone, -⟩ | ⟨hnone, -⟩)
    · rw [Option.some.inj hid]
      rfl
    · exact nomatch hnone
    · exact nomatch hnone
  | none =>
    cases hendless : s.firstEndless? with
    | some id =>
      refine ⟨fun h => .inr (.inl ⟨rfl, id, rfl, (Except.error.inj h).symm⟩), ?_⟩
      rintro (⟨id', hid, -⟩ | ⟨-, id', hid, rfl⟩ | ⟨-, hnone, -⟩)
      · exact nomatch hid
      · rw [Option.some.inj hid]
        rfl
      · exact nomatch hnone
    | none =>
      constructor
      · intro h
        rcases bind_eq_error.1 h with hdefaults | ⟨_, -, h⟩
        · exact .inr (.inr ⟨rfl, rfl, hdefaults⟩)
        · exact nomatch h
      · rintro (⟨id', hid, -⟩ | ⟨-, id', hid, -⟩ | ⟨-, -, hdefaults⟩)
        · exact nomatch hid
        · exact nomatch hid
        · exact bind_eq_error.2 (.inl hdefaults)

/-- A linked schema without circles of references is well formed. -/
theorem link_wellFormed {spec : PropertySpec} {s : Schema} (hspec : spec.Distinct)
    (hlink : (layOut "#" 0 spec).link = .ok s) (hcircular : s.firstCircular? = none) :
    s.WellFormed := by
  obtain ⟨hpos, htidy⟩ := layOut_tidy "#" 0 spec hspec
  rw [Nat.zero_add] at htidy
  obtain ⟨hroot, hsize, htypes⟩ := link_eq_ok htidy hlink
  have hkind : ∀ id, id < s.size → ∃ type ∈ s.types, s.kind id = type.kind := by
    intro id hid
    have hresolved : s.resolve id < s.size :=
      follow_lt (fun type htype => (htypes type htype).2) _ id hid
    refine ⟨s.descriptor (s.resolve id), ?_, rfl⟩
    rw [descriptor, List.getD_eq_getElem _ _ hresolved]
    exact List.getElem_mem hresolved
  -- Outside of the schema every place accepts anything, so only the places inside matter.
  refine ⟨hroot ▸ hsize ▸ hpos, hkind, fun id => ?_, fun id part hpart => ?_,
    fun id type htype => ?_⟩
  · by_cases hid : id < s.size
    · have hnone := List.find?_eq_none.1 hcircular id (List.mem_range.2 hid)
      exact Bool.eq_false_iff.2 hnone
    · rw [kind_of_le s id (Nat.le_of_not_lt hid)]
      rfl
  · by_cases hid : id < s.size
    · obtain ⟨type, htype, heq⟩ := hkind id hid
      exact ((htypes type htype).1.1 part (heq ▸ hpart)).2
    · rw [kind_of_le s id (Nat.le_of_not_lt hid)] at hpart
      exact absurd hpart List.not_mem_nil
  · by_cases hid : id < s.size
    · obtain ⟨type', htype', heq⟩ := hkind id hid
      exact (htypes type' htype').1.2 type (heq ▸ htype)
    · rw [kind_of_le s id (Nat.le_of_not_lt hid)] at htype
      exact nomatch htype

theorem compile_wellFormed {spec : PropertySpec} {s : Schema} (hspec : spec.Distinct)
    (h : (compile spec).1 = .ok s) : s.WellFormed := by
  obtain ⟨linked, hlink, hchecked⟩ := bind_eq_ok.1 h
  obtain ⟨rfl, hcircular, -⟩ := checked_eq_ok.1 hchecked
  exact link_wellFormed hspec hlink hcircular

/-- What a compiler makes of a spec in which no object declares a name twice. -/
def Compiled (s : Schema) : Prop :=
  ∃ spec : PropertySpec, spec.Distinct ∧ (compile spec).1 = .ok s

theorem Compiled.wellFormed {s : Schema} (h : s.Compiled) : s.WellFormed := by
  obtain ⟨spec, hspec, h⟩ := h
  exact compile_wellFormed hspec h

end Schema

end BoundView
