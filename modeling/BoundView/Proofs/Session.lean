import BoundView.Proofs.Schema.Reading
import BoundView.Proofs.View.Flush
import BoundView.Session

/-!
# What a session shows

A session keeps its view up to date by rendering again what a patch affects.  Main statement: after
any calls, be they accepted or refused, it shows just what the same view shows when it is mounted
afresh over the model as it is then, provided that every type of the schema is of a known kind.
-/

namespace BoundView

namespace Session

open Outcome (bind_eq_ok mapError_eq_ok)

/-! ## Calls -/

/-- What is asked of a session. -/
inductive Call where
  | apply (patch : Patch)
  | fire (target : String)

/-- The session after a call; one that is refused leaves it as it was. -/
def after (s : Session) : Call → Session
  | .apply patch =>
    match s.apply patch with
    | .ok (_, _, s') => s'
    | .error _ => s
  | .fire target =>
    match (s.fire target).1 with
    | .ok (_, s') => s'
    | .error _ => s

/-- The session after calls, one after the other. -/
def afterAll (s : Session) (calls : List Call) : Session :=
  calls.foldl after s

/-- What a view shows when it is mounted afresh over the models of a session, whoever else observes
them. -/
def mountedAfresh (s : Session) (view : ViewDocument) (observers : Observers) : Json :=
  let (root, _, stage) := (s.interpreter.renderView view (.root s.model)).perform
    ⟨⟨observers, s.stage.live.models⟩, []⟩
  (stage.tree root).toJson

theorem apply_eq_ok {s s' : Session} {patch : Patch} {n : Nat} {events : List Event}
    (h : s.apply patch = .ok (n, events, s')) :
    ∃ c live, s.stage.live.apply (.root s.model) patch = .ok (c, live)
      ∧ s' = (s.resume live).2.2 := by
  obtain ⟨⟨c, live⟩, happly, h⟩ := bind_eq_ok.1 h
  refine ⟨c, live, mapError_eq_ok.1 happly, ?_⟩
  rw [Except.ok.inj h]

theorem fire_eq_ok {s s' : Session} {target : String} {n : Nat}
    (h : (s.fire target).1 = .ok (n, s')) :
    ∃ r patch c live, s.stage.live.apply r patch = .ok (c, live) ∧ s' = (s.resume live).2.2 := by
  unfold fire at h
  split at h
  · exact nomatch h
  · rename_i handler _
    dsimp only at h
    split at h
    · exact nomatch h
    · rename_i c live hinvoke
      obtain ⟨-, rfl⟩ := Prod.mk.inj (Except.ok.inj h)
      unfold EventHandler.tryInvoke at hinvoke
      dsimp only at hinvoke
      split at hinvoke
      · exact nomatch hinvoke
      · exact ⟨_, _, c, live, mapError_eq_ok.1 hinvoke, rfl⟩

/-- A call leaves a session as it was, or brings it up to date after a patch to its models. -/
theorem after_cases (s : Session) (call : Call) :
    s.after call = s ∨ ∃ r patch c live,
      s.stage.live.apply r patch = .ok (c, live) ∧ s.after call = (s.resume live).2.2 := by
  cases call with
  | apply patch =>
    unfold after
    dsimp only
    split
    · rename_i heq
      obtain ⟨c, live, happly, rfl⟩ := apply_eq_ok heq
      exact .inr ⟨_, patch, c, live, happly, rfl⟩
    · exact .inl rfl
  | fire target =>
    unfold after
    dsimp only
    split
    · rename_i hfire
      obtain ⟨r, patch, c, live, happly, rfl⟩ := fire_eq_ok hfire
      exact .inr ⟨r, patch, c, live, happly, rfl⟩
    · exact .inl rfl

/-! ## Sessions that are up to date -/

/-- A session that shows a view over its model. -/
structure Current (view : ViewDocument) (s : Session) : Prop where
  interpreter_eq : s.interpreter = .standard
  definite : s.stage.live.models.Definite
  exists_model : ∃ m, IdMap.find? s.model s.stage.live.models = some m
  sound : s.stage.Sound s.model s.root view.shown []

namespace Current

variable {view : ViewDocument} {s : Session}

theorem composite_root (h : Current view s) :
    (ModelRef.root s.model).Composite s.stage.live.models := by
  obtain ⟨m, hm⟩ := h.exists_model
  exact ModelRef.composite_root hm (h.definite s.model m hm).valid

theorem view_eq (h : Current view s) :
    s.view = view.shown.picture s.stage.live.models (.root s.model) :=
  h.sound.toJson_tree h.definite h.composite_root

theorem mountedAfresh_eq (h : Current view s) (observers : Observers) :
    s.mountedAfresh view observers
      = view.shown.picture s.stage.live.models (.root s.model) := by
  obtain ⟨root, events, stage, hmount, hmodels, hsound⟩ :=
    @Interpreter.mount_sound s.model view.shown ⟨observers, s.stage.live.models⟩
      (ViewNode.tidy_shown view)
  have hperform : (s.interpreter.renderView view (.root s.model)).perform
      ⟨⟨observers, s.stage.live.models⟩, []⟩ = (root, events, stage) := by
    rw [h.interpreter_eq]
    unfold Rendering.perform Interpreter.renderView
    rw [hmount]
  have hmodels : stage.live.models = s.stage.live.models := hmodels
  unfold mountedAfresh
  rw [hperform, ← hmodels]
  refine hsound.toJson_tree ?_ ?_
  · rw [hmodels]
    exact h.definite
  · rw [hmodels]
    exact h.composite_root

/-- A session that is brought up to date after a patch shows its view again. -/
theorem resume (h : Current view s) {r : ModelRef} {patch : Patch} {c : Change} {live : Live}
    (happly : s.stage.live.apply r patch = .ok (c, live)) :
    Current view (s.resume live).2.2 := by
  have hmarked := h.sound.apply h.definite h.composite_root happly
  obtain ⟨count, events, stage, hflush, hmodels, hsound⟩ := Interpreter.flush_sound hmarked
  obtain ⟨happly, -⟩ := Live.apply_eq_ok happly
  have hresume : (s.resume live).2.2 = { s with stage } := by
    unfold Session.resume Session.flush Rendering.perform
    dsimp only
    rw [h.interpreter_eq, hflush]
  have hmodels : stage.live.models = live.models := hmodels
  rw [hresume]
  refine ⟨h.interpreter_eq, ?_, ?_, hsound⟩
  · show stage.live.models.Definite
    rw [hmodels]
    exact h.definite.apply happly
  · show ∃ m, IdMap.find? s.model stage.live.models = some m
    obtain ⟨m, hm⟩ := h.exists_model
    obtain ⟨data, hm⟩ := ModelRef.find?_of_apply happly hm
    exact ⟨_, hmodels ▸ hm⟩

theorem after (h : Current view s) (call : Call) : Current view (s.after call) := by
  rcases s.after_cases call with heq | ⟨r, patch, c, live, happly, heq⟩
  · rw [heq]
    exact h
  · rw [heq]
    exact h.resume happly

theorem afterAll (h : Current view s) (calls : List Call) : Current view (s.afterAll calls) := by
  induction calls generalizing s with
  | nil => exact h
  | cons call calls ih => exact ih (h.after call)

end Current

/-! ## Sessions that are started -/

theorem compiled_of_schemaOf {document : Json} {schema : Schema}
    (h : (schemaOf document).1 = .ok schema) : schema.Compiled := by
  unfold schemaOf at h
  split at h
  · exact nomatch h
  · rename_i hspec
    exact Schema.compiled_of_ofJson hspec (mapError_eq_ok.1 h)

theorem start_eq_ok {bundle : Bundle} {registry : Registry} {s : Session}
    (h : (start bundle registry).1 = .ok s) :
    ∃ schema events, schema.Compiled
      ∧ mount bundle.view bundle.data? registry schema = .ok (s, events) := by
  unfold start at h
  dsimp only at h
  split at h
  · exact nomatch h
  · rename_i events hmount
    obtain rfl := Except.ok.inj h
    obtain ⟨schema, hschema, hmount⟩ := bind_eq_ok.1 hmount
    exact ⟨schema, events, compiled_of_schemaOf hschema, hmount⟩

theorem mount_eq_ok {view : ViewDocument} {data? : Option Json} {registry : Registry}
    {schema : Schema} {s : Session} {events : List Event}
    (h : mount view data? registry schema = .ok (s, events)) :
    ∃ model live, Live.empty.create schema schema.root (Live.initial schema schema.root data?)
        = .ok (model, live)
      ∧ let mounted := (⟨registry, .standard⟩ : Interpreter).mount view.shown (.root model)
          ⟨live, []⟩ none
        s = ⟨⟨registry, .standard⟩, mounted.stage, schema, model, mounted.value⟩ := by
  obtain ⟨⟨model, live⟩, hcreate, h⟩ := bind_eq_ok.1 h
  exact ⟨model, live, mapError_eq_ok.1 hcreate, (Prod.mk.inj (Except.ok.inj h)).1.symm⟩

/-- The only model of a session that was just started is valid. -/
theorem definite_of_create {schema : Schema} {initial : Json} {model : ModelId} {live : Live}
    (hschema : schema.Compiled) (hdefinite : schema.Definite)
    (h : Live.empty.create schema schema.root initial = .ok (model, live)) :
    live.models.Definite ∧ ∃ m, IdMap.find? model live.models = some m := by
  obtain ⟨-, -, hobject, data, hdata, hmodels⟩ := Live.create_eq_ok h
  rw [hmodels]
  refine ⟨fun id m hm => ?_, _, IdMap.find?_insert_self _ _ _⟩
  by_cases hid : id = model
  -- The data are what the check of the root type gave back.
  · rw [hid, IdMap.find?_insert_self] at hm
    obtain rfl := Option.some.inj hm
    exact ⟨⟨hschema, hobject, Schema.instantiate_conforms hschema.wellFormed hdata⟩, hdefinite,
      hschema.wellFormed.root_lt⟩
  · rw [IdMap.find?_insert_of_ne _ _ hid] at hm
    exact nomatch hm

theorem current_start {bundle : Bundle} {s : Session}
    (hstart : (start bundle .standard).1 = .ok s) (hdefinite : s.schema.Definite) :
    Current bundle.view s := by
  obtain ⟨schema, events, hschema, hmount⟩ := start_eq_ok hstart
  obtain ⟨model, live, hcreate, heq⟩ := mount_eq_ok hmount
  obtain ⟨root, events, stage, hmount, hmodels, hsound⟩ :=
    Interpreter.mount_sound live (ViewNode.tidy_shown bundle.view)
  obtain rfl : s = ⟨.standard, stage, schema, model, root⟩ := by
    rw [heq]
    exact congrArg (fun mounted : Rendering.Result BoundaryId =>
      (⟨.standard, mounted.stage, schema, model, mounted.value⟩ : Session)) hmount
  obtain ⟨hmodel, hexists⟩ := definite_of_create hschema hdefinite hcreate
  exact ⟨rfl, hmodels ▸ hmodel, hmodels ▸ hexists, hsound⟩

/-! ## Main statement -/

/-- Rendering again what is affected comes to the same as rendering everything: after any calls a
session shows what its view shows when it is mounted afresh over the model. -/
theorem view_afterAll {bundle : Bundle} {s : Session} (hstart : (start bundle .standard).1 = .ok s)
    (hdefinite : ∀ type ∈ s.schema.types, type.kind.isAny = false) (calls : List Call)
    (observers : Observers) :
    (s.afterAll calls).view = (s.afterAll calls).mountedAfresh bundle.view observers := by
  have h := (current_start hstart hdefinite).afterAll calls
  rw [h.view_eq, h.mountedAfresh_eq]

end Session

/-! ## A list of things to do -/

namespace Todo

open Session

/-- A list of titles, each on a button that wipes it out. -/
def bundle : Bundle :=
  let title := Json.object [("kind", .string "string")]
  let todos := Json.object [("kind", .string "array"), ("default", .array []),
    ("items", .object [("properties", .object [("title", title)])])]
  let button := Json.object [("<>", .string "Button"),
    ("onClick", .string "%($self, 'replace', '/title', '')"), ("children", .string "#$self.title")]
  { model := .object [("properties", .object [("todos", todos)])]
    view := ⟨some (.object [("<>", .string "ul"),
      ("children", .object [("[]", .string "#$self.todos"), ("template", button)])])⟩
    data? := some (document ["a", "b"]) }

/-- To wipe out the first title, to add an item, and to replace an item that does not exist. -/
def calls : List Call :=
  [.fire "button.onClick", .apply (append "c"), .apply ⟨.replace, "/todos/7", some (item "d")⟩]

theorem exists_start : ∃ s, (start bundle .standard).1 = .ok s
    ∧ ∀ type ∈ s.schema.types, type.kind.isAny = false := by
  have h : (start bundle .standard).1.toOption.any
      (fun s => s.schema.types.all fun type => !type.kind.isAny) = true := by decide +kernel
  cases hstart : (start bundle .standard).1 with
  | error e =>
    rw [hstart] at h
    exact nomatch h
  | ok s =>
    rw [hstart] at h
    refine ⟨s, rfl, fun type htype => ?_⟩
    simpa using List.all_eq_true.1 h type htype

theorem view_afterAll_calls : ∃ s, (start bundle .standard).1 = .ok s
    ∧ (s.afterAll calls).view = (s.afterAll calls).mountedAfresh bundle.view .empty := by
  obtain ⟨s, hstart, hdefinite⟩ := exists_start
  exact ⟨s, hstart, view_afterAll hstart hdefinite calls .empty⟩

end Todo

end BoundView
