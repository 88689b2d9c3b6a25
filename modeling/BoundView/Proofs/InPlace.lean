import BoundView.Proofs.Model.SingleEdit
import BoundView.Session

/-!
# Calls that fail

A call of this library gives the new state back, so one that fails has none to give.  Here the same
calls are written as programs on one state: each write is made at once, and an error takes none of
them back.  Main statement: in place every call does what it does otherwise, and one that fails has
written nothing, to no model, no subscription, no mark and no boundary.
-/

namespace BoundView

/-! ## Programs that write in place -/

namespace InPlace

variable {ε ε' σ α β : Type}

/-- Go on with what is there, or fail. -/
def orThrow (a? : Option α) (e : ε) : EStateM ε σ α :=
  match a? with
  | some a => pure a
  | none => throw e

/-- A program does in place what `f` says, and where it fails the state is the one from before. -/
structure Atomic (program : EStateM ε σ α) (f : σ → Except ε (α × σ)) : Prop where
  ok_iff : ∀ s a s', program.run s = .ok a s' ↔ f s = .ok (a, s')
  error_iff : ∀ s e s', program.run s = .error e s' ↔ f s = .error e ∧ s' = s

/-- What a program comes to that gives its new state back. -/
def settled (s : σ) : Except ε (α × σ) → EStateM.Result ε σ α
  | .ok (a, s') => .ok a s'
  | .error e => .error e s

theorem atomic_of_run_eq {program : EStateM ε σ α} {f : σ → Except ε (α × σ)}
    (h : ∀ s, program.run s = settled s (f s)) : Atomic program f where
  ok_iff s a s' := by
    rw [h]
    cases f s with
    | error e => exact ⟨fun h => (nomatch h), fun h => (nomatch h)⟩
    | ok p => simp [settled, Prod.ext_iff]
  error_iff s e s' := by
    rw [h]
    cases f s with
    | error e' => simp [settled, eq_comm]
    | ok p => exact ⟨fun h => (nomatch h), fun h => (nomatch h.1)⟩

@[simp] theorem run_orThrow_some_bind (a : α) (e : ε) (k : α → EStateM ε σ β) (s : σ) :
    (orThrow (some a) e >>= k).run s = (k a).run s := rfl

@[simp] theorem run_orThrow_none_bind (e : ε) (k : α → EStateM ε σ β) (s : σ) :
    (orThrow none e >>= k).run s = .error e s := rfl

@[simp] theorem run_ofExcept_ok_bind (a : α) (k : α → EStateM ε σ β) (s : σ) :
    ((ofExcept (.ok a) : EStateM ε σ α) >>= k).run s = (k a).run s := rfl

theorem ok_bind (a : α) (f : α → Except ε β) : (Except.ok a >>= f) = f a := rfl

theorem run_bind_of_eq_ok {program : EStateM ε σ α} {k : α → EStateM ε σ β} {s s' : σ} {a : α}
    (h : program.run s = .ok a s') : (program >>= k).run s = (k a).run s' := by
  show EStateM.bind program k s = _
  rw [EStateM.bind, show program s = .ok a s' from h]
  rfl

theorem run_bind_of_eq_error {program : EStateM ε σ α} {k : α → EStateM ε σ β} {s s' : σ} {e : ε}
    (h : program.run s = .error e s') : (program >>= k).run s = .error e s' := by
  show EStateM.bind program k s = _
  rw [EStateM.bind, show program s = .error e s' from h]

theorem run_adaptExcept {program : EStateM ε σ α} {f : σ → Except ε (α × σ)}
    (h : ∀ s, program.run s = settled s (f s)) (g : ε → ε') (s : σ) :
    (program.adaptExcept g).run s = settled s ((f s).mapError g) := by
  show EStateM.adaptExcept g program s = _
  rw [EStateM.adaptExcept, show program s = settled s (f s) from h s]
  cases f s <;> rfl

end InPlace

open InPlace

/-! ## Patches -/

namespace ModelRef

variable (r : ModelRef)

/-- The model as it is now. -/
def current : EStateM PatchError Live Model := do
  orThrow (r.model? (← get).models) (.pathNotFound r.path)

/-- Write what `f` makes of the node at a place of the model. -/
def writeNode (place : Path) (f : Json → Option Json) : EStateM PatchError Live Unit := do
  let m ← r.current
  let node ← orThrow (m.data.get? place) (.pathNotFound place)
  let node ← orThrow (f node) (.notAContainer place)
  let data ← orThrow (m.data.replace? node place) (.pathNotFound place)
  modify fun l => { l with models := IdMap.insert r.model { m with data } l.models }

/-- Mark whoever depends on what was changed. -/
def announce (c : Change) : EStateM PatchError Live Change := do
  modify fun l => { l with observers := (l.observers.notify c).2 }
  pure c

def replaceWholeInPlace (patch : Patch) : EStateM PatchError Live Change := do
  if patch.op = .remove then throw (.wholeTarget r.path)
  let m ← r.current
  let id ← orThrow (m.schema.typeAt m.type r.path) (.pathNotFound r.path)
  let given ← orThrow (patch.value?.filter (!·.isNull)) (.validation ⟨r.path, .missing⟩)
  let value ← ofExcept ((m.schema.instantiate id given r.path).mapError .validation)
  r.writeNode r.path fun _ => some value
  announce ⟨r.model, r.path, none⟩

def editInPlace (parents : List String) (last : String) (patch : Patch) :
    EStateM PatchError Live Change := do
  let m ← r.current
  let start ← orThrow (m.schema.typeAt m.type r.path) (.pathNotFound r.path)
  let (container, id) ← ofExcept (m.schema.walk start r.path parents)
  let node ← orThrow (m.data.get? container) (.pathNotFound container)
  let plan ← ofExcept (m.schema.planWithin id node container last patch)
  r.writeNode plan.container (plan.edit.apply plan.seg)
  announce (plan.change r.model)

def applyInPlace (patch : Patch) : EStateM PatchError Live Change := do
  let _ ← r.current
  let tokens ← orThrow (Pointer.split patch.path) (.invalidPointer patch.path)
  match tokens with
  | [] => r.replaceWholeInPlace patch
  | token :: tokens =>
    r.editInPlace (token :: tokens).dropLast
      ((token :: tokens).getLast (List.cons_ne_nil token tokens)) patch

end ModelRef

/-! ## Handlers and sessions -/

def EventHandler.tryInvokeInPlace (h : EventHandler) (evaluator : Evaluator) (event : Value) :
    EStateM Error Live Change := do
  let live ← get
  let (target, patch) ← ofExcept
    ((live.look (h.request evaluator event).run).1.mapError Error.expr)
  (target.applyInPlace patch).adaptExcept .patch

namespace Session

/-- Run a program on the models and the observers of a session. -/
def onLive {ε α : Type} (program : EStateM ε Live α) : EStateM ε Session α := fun s =>
  match program s.stage.live with
  | .ok a live => .ok a { s with stage := { s.stage with live } }
  | .error e live => .error e { s with stage := { s.stage with live } }

def flushInPlace : EStateM Error Session Nat := do
  let (rendered, _, s) := (← get).flush
  set s
  pure rendered

def applyInPlace (patch : Patch) : EStateM Error Session Nat := do
  let s ← get
  let _ ← onLive (((ModelRef.root s.model).applyInPlace patch).adaptExcept .patch)
  flushInPlace

def fireInPlace (target : String) : EStateM Error Session Nat := do
  let (tag, prop) ← orThrow (splitTarget target) (.action (.badTarget target))
  let s ← get
  let element ← orThrow (s.tree.find? tag) (.action (.noElement tag))
  let h ← orThrow (element.handler? prop) (.action (.noHandler tag prop))
  let _ ← onLive (h.tryInvokeInPlace s.interpreter.evaluator .undefined)
  flushInPlace

end Session

/-! ## What the programs come to -/

namespace ModelRef

variable (r : ModelRef) {m : Model} {l : Live}

theorem run_current (hm : r.model? l.models = some m) : r.current.run l = .ok m l := by
  show (orThrow (r.model? l.models) _).run l = _
  rw [hm]
  rfl

/-- A place that is there is written, and the write is announced. -/
theorem run_write_announce {place : Path} {f : Json → Option Json} {node node' data : Json}
    (hm : r.model? l.models = some m) (hnode : m.data.get? place = some node)
    (hf : f node = some node') (hdata : m.data.modify? f place = some data) (c : Change) :
    (r.writeNode place f >>= fun _ => announce c).run l
      = .ok c ⟨(l.observers.notify c).2, IdMap.insert r.model { m with data } l.models⟩ := by
  have hwritten : (r.writeNode place f).run l
      = .ok () { l with models := IdMap.insert r.model { m with data } l.models } := by
    unfold writeNode
    rw [run_bind_of_eq_ok (r.run_current hm), hnode, run_orThrow_some_bind, hf,
      run_orThrow_some_bind, Json.replace?_of_modify? hnode hf hdata]
    rfl
  rw [run_bind_of_eq_ok hwritten]
  rfl

/-- Where there is no place to write to, nothing is written. -/
theorem run_write_missing {α : Type} {place : Path} {f : Json → Option Json}
    (hm : r.model? l.models = some m) (hnode : m.data.get? place = none)
    (k : Unit → EStateM PatchError Live α) :
    (r.writeNode place f >>= k).run l = .error (.pathNotFound place) l := by
  refine run_bind_of_eq_error ?_
  unfold writeNode
  rw [run_bind_of_eq_ok (r.run_current hm), hnode, run_orThrow_none_bind]

theorem get?_eq_none_of_replace? {j value : Json} {place : Path}
    (h : j.replace? value place = none) : j.get? place = none := by
  cases hnode : j.get? place with
  | none => rfl
  | some node =>
    have hsome : (j.replace? value place).isSome = true := Json.isSome_modify? hnode rfl
    rw [h] at hsome
    exact nomatch hsome

theorem run_replaceWholeInPlace (patch : Patch) (hm : r.model? l.models = some m) :
    (r.replaceWholeInPlace patch).run l = settled l (m.replaceWhole r.path patch >>= fun m =>
      .ok (⟨r.model, r.path, none⟩, ⟨(l.observers.notify ⟨r.model, r.path, none⟩).2,
        IdMap.insert r.model m l.models⟩)) := by
  unfold replaceWholeInPlace Model.replaceWhole
  by_cases hop : patch.op = .remove
  · rw [if_pos hop, if_pos hop]
    rfl
  rw [if_neg hop, if_neg hop]
  show (r.current >>= _).run l = _
  rw [run_bind_of_eq_ok (r.run_current hm)]
  cases htype : m.schema.typeAt m.type r.path with
  | none => rfl
  | some id =>
    rw [run_orThrow_some_bind]
    cases hgiven : patch.value? with
    | none => rfl
    | some given =>
      cases hnull : given.isNull with
      | true =>
        have hfilter : (some given).filter (!·.isNull) = none := by simp [Option.filter, hnull]
        rw [hfilter, run_orThrow_none_bind]
        dsimp only
        rw [if_pos hnull]
        rfl
      | false =>
        have hfilter : (some given).filter (!·.isNull) = some given := by
          simp [Option.filter, hnull]
        rw [hfilter, run_orThrow_some_bind]
        dsimp only
        rw [if_neg (by simp [hnull])]
        cases hvalue : m.schema.instantiate id given r.path with
        | error e => rfl
        | ok value =>
          have hmapped : (Except.ok value).mapError PatchError.validation = .ok value := rfl
          rw [hmapped, run_ofExcept_ok_bind, ok_bind]
          cases hdata : m.data.replace? value r.path with
          | none => rw [r.run_write_missing hm (get?_eq_none_of_replace? hdata)]; rfl
          | some data =>
            obtain ⟨node, _, hnode, hf, -⟩ := Json.modify?_eq_some hdata
            rw [r.run_write_announce hm hnode hf hdata]
            rfl

/-- What is planned is there to be written. -/
theorem run_editInPlace (parents : List String) (last : String) (patch : Patch)
    (hm : r.model? l.models = some m) :
    (r.editInPlace parents last patch).run l
      = settled l (m.plan r.path parents last patch >>= fun plan =>
        m.carryOut plan >>= fun m => .ok (plan.change r.model,
          ⟨(l.observers.notify (plan.change r.model)).2, IdMap.insert r.model m l.models⟩)) := by
  unfold editInPlace Model.plan
  rw [run_bind_of_eq_ok (r.run_current hm)]
  cases hstart : m.schema.typeAt m.type r.path with
  | none => rfl
  | some start =>
    rw [run_orThrow_some_bind, show Model.plan.ofOption (some start) _ = .ok start from rfl,
      ok_bind]
    cases hwalk : m.schema.walk start r.path parents with
    | error e => rfl
    | ok found =>
      obtain ⟨container, id⟩ := found
      rw [run_ofExcept_ok_bind, ok_bind]
      dsimp only
      cases hnode : m.data.get? container with
      | none => rfl
      | some node =>
        rw [run_orThrow_some_bind, show Model.plan.ofOption (some node) _ = .ok node from rfl,
          ok_bind]
        cases hplan : m.schema.planWithin id node container last patch with
        | error e => rfl
        | ok plan =>
          rw [run_ofExcept_ok_bind, ok_bind]
          obtain ⟨rfl, node', hedits⟩ := Schema.planWithin_eq_ok hplan
          obtain ⟨data, hdata⟩ := Option.isSome_iff_exists.1
            (Json.isSome_modify? hnode hedits.isSome_apply)
          rw [r.run_write_announce hm hnode hedits.apply_eq hdata, Model.carryOut, hdata]
          rfl

theorem run_applyInPlace (patch : Patch) (l : Live) :
    (r.applyInPlace patch).run l = settled l (l.apply r patch) := by
  unfold applyInPlace Live.apply apply
  cases hm : r.model? l.models with
  | none =>
    refine run_bind_of_eq_error ?_
    show (orThrow (r.model? l.models) _).run l = _
    rw [hm]
    rfl
  | some m =>
    rw [run_bind_of_eq_ok (r.run_current hm)]
    dsimp only
    unfold applyTo
    cases hsplit : Pointer.split patch.path with
    | none => rfl
    | some tokens =>
      rw [run_orThrow_some_bind]
      cases tokens with
      | nil =>
        dsimp only
        rw [r.run_replaceWholeInPlace patch hm]
        cases m.replaceWhole r.path patch <;> rfl
      | cons token tokens =>
        dsimp only
        rw [r.run_editInPlace _ _ patch hm]
        cases m.plan r.path _ _ patch with
        | error e => rfl
        | ok plan =>
          rw [ok_bind, ok_bind]
          cases m.carryOut plan <;> rfl

end ModelRef

theorem EventHandler.run_tryInvokeInPlace (h : EventHandler) (evaluator : Evaluator) (event : Value)
    (l : Live) : (h.tryInvokeInPlace evaluator event).run l
      = settled l (h.tryInvoke evaluator event l).1 := by
  unfold tryInvokeInPlace tryInvoke
  rw [run_bind_of_eq_ok (show EStateM.run get l = .ok l l from rfl)]
  dsimp only
  cases (l.look (h.request evaluator event).run).1 with
  | error e => rfl
  | ok requested =>
    obtain ⟨target, patch⟩ := requested
    exact run_adaptExcept (target.run_applyInPlace patch) Error.patch l

namespace Session

variable (s : Session)

/-- What is done to the models and the observers of a session is done to the session. -/
theorem run_onLive_bind {ε α β : Type} {program : EStateM ε Live α}
    {f : Live → Except ε (α × Live)} (h : ∀ l, program.run l = settled l (f l))
    (k : α → EStateM ε Session β) :
    (onLive program >>= k).run s = match f s.stage.live with
      | .ok (a, live) => (k a).run { s with stage := { s.stage with live } }
      | .error e => .error e s := by
  have hrun : program s.stage.live = settled s.stage.live (f s.stage.live) := h s.stage.live
  cases hf : f s.stage.live with
  | ok p =>
    refine run_bind_of_eq_ok ?_
    show onLive program s = _
    rw [onLive, hrun, hf]
    rfl
  | error e =>
    refine run_bind_of_eq_error ?_
    show onLive program s = _
    rw [onLive, hrun, hf]
    rfl

theorem run_applyInPlace (patch : Patch) : (applyInPlace patch).run s
    = settled s ((s.apply patch).map fun (rendered, _, s) => (rendered, s)) := by
  unfold applyInPlace apply
  rw [run_bind_of_eq_ok (show EStateM.run get s = .ok s s from rfl),
    run_onLive_bind s
      (run_adaptExcept ((ModelRef.root s.model).run_applyInPlace patch) Error.patch)]
  cases s.stage.live.apply (.root s.model) patch <;> rfl

theorem run_fireInPlace (target : String) :
    (fireInPlace target).run s = settled s (s.fire target).1 := by
  unfold fireInPlace fire handlerAt
  cases splitTarget target with
  | none => rfl
  | some parts =>
    obtain ⟨tag, prop⟩ := parts
    rw [run_orThrow_some_bind, run_bind_of_eq_ok (show EStateM.run get s = .ok s s from rfl)]
    dsimp only
    cases s.tree.find? tag with
    | none => rfl
    | some element =>
      rw [run_orThrow_some_bind]
      dsimp only
      cases element.handler? prop with
      | none => rfl
      | some h =>
        rw [run_orThrow_some_bind,
          run_onLive_bind s (h.run_tryInvokeInPlace s.interpreter.evaluator .undefined)]
        dsimp only
        cases (h.tryInvoke s.interpreter.evaluator .undefined s.stage.live).1 <;> rfl

/-! ## Main statement -/

/-- A call that fails leaves everything as it was: run in place, it comes to the same outcome as the
call that gives its new state back, and where this is an error nothing was written before. -/
theorem calls_atomic :
    (∀ (r : ModelRef) (patch : Patch), Atomic (r.applyInPlace patch) fun l => l.apply r patch)
    ∧ (∀ (h : EventHandler) (evaluator : Evaluator) (event : Value),
      Atomic (h.tryInvokeInPlace evaluator event) fun l => (h.tryInvoke evaluator event l).1)
    ∧ (∀ patch : Patch, Atomic (applyInPlace patch) fun s =>
      (s.apply patch).map fun (rendered, _, s) => (rendered, s))
    ∧ ∀ target : String, Atomic (fireInPlace target) fun s => (s.fire target).1 := by
  refine ⟨fun r patch => ?_, fun h evaluator event => ?_, fun patch => ?_, fun target => ?_⟩
  · exact atomic_of_run_eq (r.run_applyInPlace patch)
  · exact atomic_of_run_eq (h.run_tryInvokeInPlace evaluator event)
  · exact atomic_of_run_eq fun s => s.run_applyInPlace patch
  · exact atomic_of_run_eq fun s => s.run_fireInPlace target

end Session

end BoundView
