import BoundView.Proofs.Model.Tracking

/-!
# References to composite nodes

An evaluation refers to nothing but objects and arrays of models.  Main statement: where every type
of a schema is of a known kind, no patch puts an array in the place of an object or an object in the
place of an array, so a reference that leads to a composite node before a patch and after it cannot
be told apart by asking whether it leads to an array.
-/

namespace BoundView

open Json (SameTop)

/-- A schema without a type that accepts anything. -/
def Schema.Definite (s : Schema) : Prop :=
  ∀ type ∈ s.types, type.kind.isAny = false

namespace Schema

variable {s : Schema}

theorem Definite.isAny_eq_false (hdefinite : s.Definite) (hs : s.WellFormed) {id : Nat}
    (hid : id < s.size) : (s.kind id).isAny = false := by
  obtain ⟨type, htype, heq⟩ := hs.kind_mem id hid
  rw [heq]
  exact hdefinite type htype

/-- Beneath a node that conforms stand conforming nodes of the types one step down. -/
theorem Conforms.exists_stepType (hs : s.WellFormed) {id : TypeId} {j value : Json} {seg : Seg}
    (hany : (s.kind id).isAny = false) (h : s.Conforms id j) (hvalue : j.step? seg = some value) :
    ∃ child, s.stepType id seg = some child ∧ child < s.size
      ∧ (value.isNull = false → s.Conforms child value) := by
  -- That the child conforms is known already; that it has a type has to be seen.
  suffices hstep : ∃ child, s.stepType id seg = some child by
    obtain ⟨child, htype⟩ := hstep
    exact ⟨child, htype, hs.stepType_lt htype, fun hnull => h.step? htype hvalue hnull⟩
  cases h with
  | any hkind =>
    rw [hkind] at hany
    cases hany
  | string | boolean | number => cases seg <;> cases hvalue
  | @array _ items xs hkind =>
    cases seg with
    | field name => cases hvalue
    | index i => exact ⟨items, stepType_of_array hkind⟩
  | @object _ type ms hkind hnodup hdeclared =>
    cases seg with
    | index i => cases hvalue
    | field name =>
      obtain ⟨child, hfind⟩ :=
        Members.exists_of_mem_names (hdeclared name (Members.mem_names_of_find? hvalue))
      exact ⟨child, stepType_of_find? hkind hfind⟩

/-- Each node of a conforming document conforms to the type of its place. -/
theorem Conforms.exists_typeAt (hs : s.WellFormed) (hdefinite : s.Definite) {id : Nat}
    {j node : Json} {path : Path} (hid : id < s.size) (h : j.isNull = false → s.Conforms id j)
    (hget : j.get? path = some node) :
    ∃ type : Nat, s.typeAt id path = some type ∧ type < s.size
      ∧ (node.isNull = false → s.Conforms type node) := by
  induction path generalizing id j with
  | nil =>
    obtain rfl := Option.some.inj hget
    exact ⟨id, rfl, hid, h⟩
  | cons seg path ih =>
    obtain ⟨value, hvalue, hget⟩ := Option.bind_eq_some_iff.1 hget
    have hnull : j.isNull = false := Json.isNull_of_step? hvalue
    obtain ⟨child, hchild, hlt, hconforms⟩ :=
      (h hnull).exists_stepType hs (hdefinite.isAny_eq_false hs hid) hvalue
    obtain ⟨type, htype, hrest⟩ := ih hlt hconforms hget
    refine ⟨type, ?_, hrest⟩
    rw [typeAt, hchild]
    exact htype

end Schema

/-! ## References to composite nodes -/

namespace ModelRef

variable {q r : ModelRef} {models models' : Models} {patch : Patch} {c : Change}

/-- A reference that leads to an object or to an array. -/
def Composite (models : Models) (q : ModelRef) : Prop :=
  (q.load models).1 = .model q

theorem Composite.exists_node (h : q.Composite models) : ∃ node, q.node? models = some node
    ∧ ((∃ xs, node = .array xs) ∨ ∃ ms, node = .object ms) := by
  unfold Composite load Reading.peek at h
  dsimp only at h
  generalize q.node? models = node? at h ⊢
  cases node? with
  | none => exact nomatch h
  | some node =>
    cases node with
    | array xs => exact ⟨_, rfl, .inl ⟨xs, rfl⟩⟩
    | object ms => exact ⟨_, rfl, .inr ⟨ms, rfl⟩⟩
    | null | bool | number | string => exact nomatch h

theorem composite_of_load {v : ModelRef} (h : (q.load models).1 = .model v) :
    v.Composite models := by
  obtain rfl := load_eq_model h
  exact h

theorem composite_root {id : Nat} {m : Model} (hm : IdMap.find? id models = some m)
    (hvalid : m.Valid) : (root id).Composite models := by
  obtain ⟨ms, hdata⟩ := hvalid.exists_data_eq
  unfold Composite load Reading.peek node? model? root
  dsimp only
  rw [hm, Option.bind_some, Json.get?, hdata]

theorem Composite.root (hmodels : ∀ id m, IdMap.find? id models = some m → m.Valid)
    (h : q.Composite models) : (root q.model).Composite models := by
  obtain ⟨node, hnode, -⟩ := h.exists_node
  obtain ⟨m, hm, -⟩ := Option.bind_eq_some_iff.1 hnode
  exact composite_root hm (hmodels q.model m hm)

/-- A patch that is not heard of leaves a composite node composite. -/
theorem Composite.of_sameTop (htop : Option.Rel SameTop (q.node? models) (q.node? models'))
    (h : q.Composite models) : q.Composite models' := by
  unfold Composite
  rw [load_eq_of_sameTop htop]
  exact h

/-- The type of a place tells whether an array stands there, if anything composite does. -/
theorem isArray_iff_kind {m : Model} (hm : IdMap.find? q.model models = some m) (hvalid : m.Valid)
    (hdefinite : m.schema.Definite) (htype : m.type < m.schema.size) (h : q.Composite models) :
    ∃ type : Nat, m.schema.typeAt m.type q.path = some type
      ∧ (q.isArray models = true ↔ ∃ items, m.schema.kind type = .array items) := by
  have hs := hvalid.compiled.wellFormed
  obtain ⟨node, hnode, hcomposite⟩ := h.exists_node
  have hget : m.data.get? q.path = some node := by
    rw [node?, model?, hm] at hnode
    exact hnode
  obtain ⟨type, htypeAt, hlt, hconforms⟩ :=
    Schema.Conforms.exists_typeAt hs hdefinite htype (fun _ => hvalid.conforms) hget
  have hany := hdefinite.isAny_eq_false hs hlt
  refine ⟨type, htypeAt, ?_⟩
  unfold isArray
  rw [hnode]
  rcases hcomposite with ⟨xs, rfl⟩ | ⟨ms, rfl⟩
  · cases hconforms rfl with
    | any hkind =>
      rw [hkind] at hany
      cases hany
    | array hkind => exact iff_of_true rfl ⟨_, hkind⟩
  · refine iff_of_false Bool.false_ne_true ?_
    rintro ⟨items, hkind⟩
    cases hconforms rfl with
    | any hkind' | object hkind' => cases hkind.symm.trans hkind'

end ModelRef

/-! ## Models before and after a patch -/

/-- A valid model in whose schema every type is of a known kind. -/
structure Model.Definite (m : Model) : Prop where
  valid : m.Valid
  definite : m.schema.Definite
  type_lt : m.type < m.schema.size

/-- All models are valid, and every type of their schemas is of a known kind. -/
def Models.Definite (models : Models) : Prop :=
  ∀ id m, IdMap.find? id models = some m → m.Definite

namespace Models

variable {r : ModelRef} {models models' : Models} {patch : Patch} {c : Change}

theorem Definite.apply (hmodels : Definite models) (h : r.apply models patch = .ok (c, models')) :
    Definite models' := by
  intro id m' hm'
  obtain ⟨hvalid, m, hm, hschema, htype⟩ :=
    ModelRef.valid_of_apply h (fun id m hm => (hmodels id m hm).valid) hm'
  refine ⟨hvalid, ?_, ?_⟩
  · rw [hschema]
    exact (hmodels id m hm).definite
  · rw [hschema, htype]
    exact (hmodels id m hm).type_lt

theorem Definite.composite_root (hmodels : Definite models) {q : ModelRef}
    (h : q.Composite models) : (ModelRef.root q.model).Composite models :=
  h.root fun id m hm => (hmodels id m hm).valid

theorem Definite.isArray_eq (hmodels : Definite models)
    (h : r.apply models patch = .ok (c, models')) {q : ModelRef} (hq : q.Composite models)
    (hq' : q.Composite models') : q.isArray models' = q.isArray models := by
  obtain ⟨node, hnode, -⟩ := hq'.exists_node
  obtain ⟨m', hm', -⟩ := Option.bind_eq_some_iff.1 hnode
  obtain ⟨-, m, hm, hschema, htype⟩ :=
    ModelRef.valid_of_apply h (fun id m hm => (hmodels id m hm).valid) hm'
  have hdefinite := hmodels q.model m hm
  have hdefinite' := hmodels.apply h q.model m' hm'
  obtain ⟨type, htypeAt, hiff⟩ := ModelRef.isArray_iff_kind hm hdefinite.valid hdefinite.definite
    hdefinite.type_lt hq
  obtain ⟨type', htypeAt', hiff'⟩ := ModelRef.isArray_iff_kind hm' hdefinite'.valid
    hdefinite'.definite hdefinite'.type_lt hq'
  -- The place has one type before and after, and the type alone tells arrays from objects.
  rw [hschema, htype, htypeAt] at htypeAt'
  obtain rfl := Option.some.inj htypeAt'
  rw [hschema] at hiff'
  exact Bool.eq_iff_iff.2 (hiff'.trans hiff.symm)

/-- Models before and after an accepted patch look the same to every reader that is not affected and
holds on to references that are composite both times. -/
theorem Definite.twins (hmodels : Definite models) (h : r.apply models patch = .ok (c, models')) :
    Twins models models' (fun d => c.affects d = false)
      fun q => q.Composite models ∧ q.Composite models' := by
  have htwins := ModelRef.twins_of_apply h fun id m hm => (hmodels id m hm).valid
  refine ⟨htwins.sameTop, htwins.node?_eq, htwins.computed?_eq, ?_, ?_, ?_⟩
  · exact fun q hq => hmodels.isArray_eq h hq.1 hq.2
  · exact fun q hq => ⟨hmodels.composite_root hq.1, (hmodels.apply h).composite_root hq.2⟩
  · intro q v hq hload
    obtain rfl := ModelRef.load_eq_model hload
    exact ⟨hload, ModelRef.Composite.of_sameTop (htwins.sameTop v hq) hload⟩

end Models

/-- Models that do not change are their own twins. -/
theorem Twins.self {models : Models} {held : ModelRef → Prop}
    (hroot : ∀ q, held q → held (.root q.model))
    (hloaded : ∀ (q : ModelRef) v, (q.load models).1 = .model v → held v) :
    Twins models models (fun _ => True) held where
  sameTop q _ := sameTop_refl (q.node? models)
  node?_eq _ _ := rfl
  computed?_eq _ _ := rfl
  isArray_eq _ _ := rfl
  held_root := hroot
  held_loaded q v _ := hloaded q v

theorem Models.Definite.twins_self {models : Models} (hmodels : models.Definite) :
    Twins models models (fun _ => True) fun q => q.Composite models :=
  .self (fun _ hq => hmodels.composite_root hq) fun _ _ hload => ModelRef.composite_of_load hload

end BoundView
