import BoundView.Model.Live
import BoundView.Proofs.Model.Edit
import BoundView.Proofs.Schema.Conforming
import Mathlib

/-!
# Documents that models reach

Every patch that is accepted leaves a document that conforms to the type of its model: the slot that
is written is checked, and the containers above it lose nothing that they need.  Main statement: a
model of a compiled schema passes its own check at any time, and comes back from it as it is.
-/

namespace BoundView

open Json (Reordered)

namespace Schema

variable {s : Schema}

/-! ## One slot of a document -/

theorem Conforms.step? {id child : TypeId} {j value : Json} {seg : Seg} (h : s.Conforms id j)
    (htype : s.stepType id seg = some child) (hvalue : j.step? seg = some value)
    (hnull : value.isNull = false) : s.Conforms child value := by
  cases seg with
  | field name =>
    obtain ⟨type, hkind, hfind⟩ := stepType_field htype
    cases j with
    | object ms =>
      have hfit := ((Conforms.object_iff hkind).1 h).2.2 name child hfind
      rw [show Members.find? name ms = some value from hvalue] at hfit
      exact hfit
    | null | bool | number | string | array => exact nomatch hvalue
  | index i =>
    have hkind := stepType_index htype
    cases j with
    | array xs =>
      exact ((Conforms.array_iff hkind).1 h value (List.mem_of_getElem? hvalue)).1 hnull
    | null | bool | number | string | object => exact nomatch hvalue

/-- A slot of a container may be given another value that fits. -/
theorem Conforms.putStep {id child : TypeId} {j old value : Json} {seg : Seg}
    (h : s.Conforms id j) (htype : s.stepType id seg = some child) (hold : j.step? seg = some old)
    (hvalue : s.Conforms child value) (hnull : value.isNull = false) :
    s.Conforms id (j.putStep seg value) := by
  cases seg with
  | field name =>
    obtain ⟨type, hkind, hfind⟩ := stepType_field htype
    cases j with
    | object ms =>
      obtain ⟨hnodup, hdeclared, hfits⟩ := (Conforms.object_iff hkind).1 h
      refine (Conforms.object_iff hkind).2
        ⟨Members.nodup_names_set hnodup, fun other hother => ?_, fun other field hfield => ?_⟩
      · rcases Members.mem_names_set.1 hother with rfl | hother
        · exact Members.mem_names_of_find? hfind
        · exact hdeclared other hother
      · by_cases hne : other = name
        · subst hne
          obtain rfl := Option.some.inj (hfind.symm.trans hfield)
          rw [Members.find?_set_self]
          exact hvalue
        · rw [Members.find?_set_of_ne value ms hne]
          exact hfits other field hfield
    | null | bool | number | string | array => exact nomatch hold
  | index i =>
    have hkind := stepType_index htype
    cases j with
    | array xs =>
      refine (Conforms.array_iff hkind).2 fun x hx => ?_
      -- Each element is an old one or the new one.
      rcases List.mem_or_eq_of_mem_set hx with hx | rfl
      · exact (Conforms.array_iff hkind).1 h x hx
      · exact ⟨fun _ => hvalue, fun heq => nomatch hnull.symm.trans heq⟩
    | null | bool | number | string | object => exact nomatch hold

/-- A change at a place whose node stays of its type leaves a document of its type. -/
theorem Conforms.modify? {f : Json → Option Json} {id target : TypeId} {j j' : Json} {path : Path}
    (htype : s.typeAt id path = some target)
    (hf : ∀ node node', j.get? path = some node → (node.isNull = false → s.Conforms target node) →
      f node = some node' → node'.isNull = false ∧ s.Conforms target node')
    (h : j.isNull = false → s.Conforms id j) (hmodify : j.modify? f path = some j') :
    j'.isNull = false ∧ s.Conforms id j' := by
  induction path generalizing id j j' with
  | nil =>
    obtain rfl := Option.some.inj htype
    exact hf j j' rfl h hmodify
  | cons seg path ih =>
    obtain ⟨child, child', hstep, hchild, rfl⟩ := Json.modify?_cons_eq_some.1 hmodify
    obtain ⟨childId, hstepType, htype⟩ := Option.bind_eq_some_iff.1 htype
    have hnull : j.isNull = false := Json.isNull_of_step? hstep
    have hsub : child.isNull = false → s.Conforms childId child :=
      (h hnull).step? hstepType hstep
    obtain ⟨hnull', hchild'⟩ := ih htype (fun node node' hnode => hf node node' (by
      rw [Json.get?, hstep]
      exact hnode)) hsub hchild
    exact ⟨(Json.isNull_putStep j child' seg).trans hnull,
      (h hnull).putStep hstepType hstep hchild' hnull'⟩

/-! ## Edits -/

theorem Edits.conforms (hs : s.WellFormed) {patch : Patch} {container : Path} {token : String}
    {id : TypeId} {node node' : Json} {seg : Seg} {edit : Edit}
    (h : s.Edits patch container token id node seg edit node') (hnode : s.Conforms id node) :
    s.Conforms id node' := by
  cases h with
  | @setField type field ms value hkind hfield hslot =>
    have hfind := ObjectType.storedField_eq_ok hfield
    obtain ⟨hnodup, hdeclared, hfits⟩ := (Conforms.object_iff hkind).1 hnode
    refine (Conforms.object_iff hkind).2
      ⟨Members.nodup_names_set hnodup, fun name hname => ?_, fun name other hother => ?_⟩
    · rcases Members.mem_names_set.1 hname with rfl | hname
      · exact Members.mem_names_of_find? hfind
      · exact hdeclared name hname
    · by_cases hne : name = token
      · subst hne
        obtain rfl := Option.some.inj (hfind.symm.trans hother)
        rw [Members.find?_set_self]
        exact instantiateSlot_fits hs hslot
      · rw [Members.find?_set_of_ne value ms hne]
        exact hfits name other hother
  | @unsetField type field ms hkind hfield hslot =>
    have hfind := ObjectType.storedField_eq_ok hfield
    obtain ⟨hnodup, hdeclared, hfits⟩ := (Conforms.object_iff hkind).1 hnode
    have hsublist := (Members.erase_sublist token ms).map Prod.fst
    refine (Conforms.object_iff hkind).2 ⟨hnodup.sublist hsublist,
      fun name hname => hdeclared name (hsublist.subset hname), fun name other hother => ?_⟩
    by_cases hne : name = token
    · subst hne
      obtain rfl := Option.some.inj (hfind.symm.trans hother)
      rw [Members.find?_erase_self hnodup]
      exact instantiateSlot_fits hs hslot
    · rw [Members.find?_erase_of_ne ms hne]
      exact hfits name other hother
  | setElement hkind hop hpoints hbound hslot =>
    refine (Conforms.array_iff hkind).2 fun x hx => ?_
    rcases List.mem_or_eq_of_mem_set hx with hx | rfl
    · exact (Conforms.array_iff hkind).1 hnode x hx
    · exact (instantiateSlot_fits hs hslot).getD
  | insertElement hkind hop hpoints hbound hslot =>
    refine (Conforms.array_iff hkind).2 fun x hx => ?_
    rcases (List.mem_insertIdx hbound).1 hx with rfl | hx
    · exact (instantiateSlot_fits hs hslot).getD
    · exact (Conforms.array_iff hkind).1 hnode x hx
  | deleteElement hkind hop hpoints hbound =>
    refine (Conforms.array_iff hkind).2 fun x hx => ?_
    exact (Conforms.array_iff hkind).1 hnode x (List.mem_of_mem_eraseIdx hx)

theorem Edits.isNull_eq_false {patch : Patch} {container : Path} {token : String} {id : TypeId}
    {node node' : Json} {seg : Seg} {edit : Edit}
    (h : s.Edits patch container token id node seg edit node') :
    node.isNull = false ∧ node'.isNull = false := by
  cases h <;> exact ⟨rfl, rfl⟩

end Schema

/-- An accepted patch leaves a document of the type of its model. -/
theorem ModelRef.Accepts.conforms {r : ModelRef} {m : Model} {patch : Patch} {c : Change}
    {data : Json} (h : r.Accepts m patch c data) (hs : m.schema.WellFormed)
    (hdata : m.schema.Conforms m.type m.data) : m.schema.Conforms m.type data := by
  cases h with
  | whole hsplit hop htype hgiven hnull hvalue hreplace =>
    -- The value that takes the place of the node is what the check gave back.
    refine (Schema.Conforms.modify? htype (fun node node' _ hnode hf => ?_) (fun _ => hdata)
      hreplace).2
    obtain rfl := Option.some.inj hf
    exact ⟨Schema.isNull_check hvalue hnull, Schema.instantiate_conforms hs hvalue⟩
  | edit hsplit hstart hwalk hnode hedits hmodify =>
    have htype := Schema.typeAt_of_walk hstart hwalk
    refine (Schema.Conforms.modify? htype (fun before after hbefore hconforms hf => ?_)
      (fun _ => hdata) hmodify).2
    obtain rfl := Option.some.inj (hnode.symm.trans hbefore)
    obtain rfl := Option.some.inj (hedits.apply_eq.symm.trans hf)
    exact ⟨hedits.isNull_eq_false.2, hedits.conforms hs (hconforms hedits.isNull_eq_false.1)⟩

/-! ## States of live models -/

/-- A model of an object type whose document is of the type. -/
structure Model.Valid (m : Model) : Prop where
  compiled : m.schema.Compiled
  isSome_object? : (m.schema.object? m.type).isSome = true
  conforms : m.schema.Conforms m.type m.data

theorem Model.Valid.exists_data_eq {m : Model} (h : m.Valid) : ∃ ms, m.data = .object ms := by
  obtain ⟨-, hobject, hconforms⟩ := h
  unfold Schema.object? at hobject
  generalize m.data = data at hconforms ⊢
  cases hconforms with
  | object => exact ⟨_, rfl⟩
  | any hkind | string hkind | boolean hkind | number hkind | array hkind =>
    exact absurd hobject (by rw [hkind]; exact Bool.false_ne_true)

/-- An accepted patch keeps all models, each with its schema and its type, and keeps them valid. -/
theorem ModelRef.valid_of_apply {r : ModelRef} {models models' : Models}
    {patch : Patch} {c : Change}
    (h : r.apply models patch = .ok (c, models'))
    (hvalid : ∀ id m, IdMap.find? id models = some m → m.Valid) {id : ModelId} {m' : Model}
    (hm' : IdMap.find? id models' = some m') :
    m'.Valid ∧ ∃ m, IdMap.find? id models = some m ∧ m'.schema = m.schema ∧ m'.type = m.type := by
  obtain ⟨m, data, hm, haccepts, rfl⟩ := apply_eq_ok h
  by_cases hid : id = r.model
  · rw [hid, IdMap.find?_insert_self] at hm'
    obtain rfl := Option.some.inj hm'
    have hm₀ := hvalid r.model m hm
    refine ⟨⟨hm₀.compiled, hm₀.isSome_object?, ?_⟩, m, hid ▸ hm, rfl, rfl⟩
    exact haccepts.conforms hm₀.compiled.wellFormed hm₀.conforms
  · rw [IdMap.find?_insert_of_ne _ _ hid] at hm'
    exact ⟨hvalid id m' hm', m', hm', rfl, rfl⟩

/-- An accepted patch keeps every model, but for the document of one. -/
theorem ModelRef.find?_of_apply {r : ModelRef} {models models' : Models}
    {patch : Patch} {c : Change}
    (h : r.apply models patch = .ok (c, models')) {id : ModelId} {m : Model}
    (hm : IdMap.find? id models = some m) :
    ∃ data, IdMap.find? id models' = some { m with data } := by
  obtain ⟨m', data, hm', -, rfl⟩ := apply_eq_ok h
  by_cases hid : id = r.model
  · subst hid
    obtain rfl := Option.some.inj (hm'.symm.trans hm)
    exact ⟨data, IdMap.find?_insert_self _ _ _⟩
  · rw [IdMap.find?_insert_of_ne _ _ hid]
    exact ⟨m.data, hm⟩

namespace Live

/-- What happens to live models: observers come, read and go, models are made, and patches are
accepted.  A patch that is rejected changes nothing. -/
inductive Step (l : Live) : Live → Prop where
  | observe {observers : Observers} (h : l.observers.lastId ≤ observers.lastId) :
      Step l ⟨observers, l.models⟩
  | create {l' : Live} {schema : Schema} {type : TypeId} {initial : Json} {id : Nat}
      (hschema : schema.Compiled) (h : l.create schema type initial = .ok (id, l')) : Step l l'
  | apply {l' : Live} {r : ModelRef} {patch : Patch} {c : Change}
      (h : l.apply r patch = .ok (c, l')) : Step l l'

/-- Any number of steps. -/
abbrev Reaches : Live → Live → Prop :=
  Relation.ReflTransGen Step

abbrev Reachable (l : Live) : Prop :=
  Reaches .empty l

/-- Every model is valid and has a number that was given. -/
def Valid (l : Live) : Prop :=
  ∀ id m, IdMap.find? id l.models = some m → id ≤ l.observers.lastId ∧ m.Valid

theorem create_eq_ok {l l' : Live} {schema : Schema} {type : TypeId} {initial : Json}
    {id : Nat} (h : l.create schema type initial = .ok (id, l')) :
    id = l.observers.lastId + 1 ∧ l'.observers.lastId = id
      ∧ (schema.object? type).isSome = true
      ∧ ∃ data, schema.instantiate type initial [] = .ok data
        ∧ l'.models = IdMap.insert id ⟨schema, type, data⟩ l.models := by
  unfold create at h
  by_cases hobject : (schema.object? type).isNone = true
  · rw [if_pos hobject] at h
    exact nomatch h
  rw [if_neg hobject] at h
  obtain ⟨data, hdata, h⟩ := Outcome.bind_eq_ok.1 h
  obtain ⟨rfl, rfl⟩ := Prod.mk.inj (Except.ok.inj h)
  exact ⟨rfl, rfl, Option.isSome_iff_ne_none.2 (by simpa using hobject), data, hdata, rfl⟩

theorem apply_eq_ok {l l' : Live} {r : ModelRef} {patch : Patch} {c : Change}
    (h : l.apply r patch = .ok (c, l')) :
    r.apply l.models patch = .ok (c, l'.models)
      ∧ l'.observers = (l.observers.notify c).2 := by
  obtain ⟨⟨c', models⟩, happly, h⟩ := Outcome.bind_eq_ok.1 h
  obtain ⟨rfl, rfl⟩ := Prod.mk.inj (Except.ok.inj h)
  exact ⟨happly, rfl⟩

/-- A step keeps the models that there are, each with its schema and type, and leaves all models
valid. -/
theorem Step.valid {l l' : Live} (h : Step l l') (hl : l.Valid) :
    l'.Valid ∧ ∀ id m, IdMap.find? id l.models = some m →
      ∃ data, IdMap.find? id l'.models = some { m with data } := by
  cases h with
  | observe hid =>
    refine ⟨fun id m hm => ?_, fun id m hm => ⟨m.data, hm⟩⟩
    exact ⟨Nat.le_trans (hl id m hm).1 hid, (hl id m hm).2⟩
  | @create _ schema type initial new hschema h =>
    obtain ⟨hnew, hlast, hobject, data, hdata, hmodels⟩ := create_eq_ok h
    refine ⟨fun id m hm => ?_, fun id m hm => ⟨m.data, ?_⟩⟩
    · rw [hmodels] at hm
      rw [hlast]
      by_cases hid : id = new
      · subst hid
        rw [IdMap.find?_insert_self] at hm
        obtain rfl := Option.some.inj hm
        exact ⟨Nat.le_refl _, hschema, hobject,
          Schema.instantiate_conforms hschema.wellFormed hdata⟩
      · rw [IdMap.find?_insert_of_ne _ _ hid] at hm
        obtain ⟨hle, hvalid⟩ := hl id m hm
        exact ⟨by omega, hvalid⟩
    · have hid : id ≠ new := by
        have hle := (hl id m hm).1
        omega
      rw [hmodels, IdMap.find?_insert_of_ne _ _ hid]
      exact hm
  | @apply _ r patch c h =>
    obtain ⟨happly, hobservers⟩ := apply_eq_ok h
    have hlast : l'.observers.lastId = l.observers.lastId := by rw [hobservers]; rfl
    refine ⟨fun id m hm => ?_, fun id m hm => ModelRef.find?_of_apply happly hm⟩
    obtain ⟨hvalid, m₀, hm₀, -⟩ := ModelRef.valid_of_apply happly (fun id m hm => (hl id m hm).2) hm
    exact ⟨hlast ▸ (hl id m₀ hm₀).1, hvalid⟩

theorem Reaches.valid {l l' : Live} (h : Reaches l l') (hl : l.Valid) :
    l'.Valid ∧ ∀ id m, IdMap.find? id l.models = some m →
      ∃ data, IdMap.find? id l'.models = some { m with data } := by
  induction h with
  | refl => exact ⟨hl, fun id m hm => ⟨m.data, hm⟩⟩
  | tail _ hstep ih =>
    obtain ⟨hvalid, hmodels⟩ := ih
    obtain ⟨hvalid', hmodels'⟩ := hstep.valid hvalid
    refine ⟨hvalid', fun id m hm => ?_⟩
    obtain ⟨data, hdata⟩ := hmodels id m hm
    obtain ⟨data', hdata'⟩ := hmodels' id _ hdata
    exact ⟨data', hdata'⟩

theorem Reachable.valid {l : Live} (h : l.Reachable) : l.Valid :=
  (Reaches.valid h fun _ _ hm => nomatch hm).1

/-- Whatever happens after a model of a compiled schema was made, its document is of its type: the
check of the type lets it through and gives it back, but for the order of members. -/
theorem instantiate_data {l l₁ l₂ : Live} {schema : Schema} {type : TypeId} {initial : Json}
    {id : ModelId} (hl : l.Reachable) (hschema : schema.Compiled)
    (hcreate : l.create schema type initial = .ok (id, l₁)) (hsteps : l₁.Reaches l₂) :
    schema.Conforms type (l₂.data id)
      ∧ ∃ value, schema.instantiate type (l₂.data id) [] = .ok value
        ∧ value.Reordered (l₂.data id) := by
  obtain ⟨hvalid, -⟩ := (Step.create hschema hcreate).valid (Reachable.valid hl)
  obtain ⟨hvalid₂, hmodels⟩ := hsteps.valid hvalid
  obtain ⟨-, -, -, data₁, -, hmodels₁⟩ := create_eq_ok hcreate
  obtain ⟨data, hdata⟩ := hmodels id ⟨schema, type, data₁⟩
    (by rw [hmodels₁, IdMap.find?_insert_self])
  have hconforms : schema.Conforms type data := (hvalid₂ id _ hdata).2.conforms
  -- The model has its schema and its type from when it was made.
  rw [show l₂.data id = data by rw [Live.data, hdata]]
  exact ⟨hconforms, hconforms.check hschema.wellFormed _ []⟩

end Live

/-! ## A list of things to do -/

namespace Todo

def spec : PropertySpec :=
  let title := PropertySpec.ofKind .string
  let todos := PropertySpec.ofKind (.array (.object [("title", title)]))
  .object [("todos", todos.withDefault (.array []))]

theorem compiled : schema.Compiled := by
  refine ⟨spec, ?_, by cbv⟩
  simp [spec, PropertySpec.object, PropertySpec.ofKind, PropertySpec.withDefault, Members.ofList,
    Members.set, PropertySpec.Distinct, SpecKind.Distinct, PropertySpec.DistinctAll]

/-- The first model, with these items. -/
def live (titles : List String) : Live :=
  ⟨⟨1, [], []⟩, models titles⟩

theorem create_eq : Live.empty.create schema 0 (document ["a", "b"])
    = .ok (1, live ["a", "b"]) := by
  cbv

theorem reachable_live : (live ["a", "b"]).Reachable :=
  .single (.create compiled create_eq)

theorem live_apply_append : (live ["a", "b"]).apply (.root 1) (append "c")
    = .ok (⟨1, [.field "todos", .index 2], some ([.field "todos"], 2)⟩, live ["a", "b", "c"]) := by
  cbv

/-- A list with an item more is still one that the check gives back. -/
theorem instantiate_appended : schema.Conforms 0 (document ["a", "b", "c"])
    ∧ ∃ value, schema.instantiate 0 (document ["a", "b", "c"]) [] = .ok value
      ∧ value.Reordered (document ["a", "b", "c"]) :=
  Live.instantiate_data .refl compiled create_eq (.single (.apply live_apply_append))

end Todo

end BoundView
