import BoundView.Proofs.View.Spawning

/-!
# Renderings with an account

A rendering together with the list of what it does to boundaries: which it renders and which it
drops, one after the other.  Main statement: an interpreter that keeps account renders what it
renders without.
-/

namespace BoundView

open Stage

/-- What is done to a boundary. -/
inductive Deed where
  /-- It begins to be rendered. -/
  | rendered (id : BoundaryId)
  /-- It is gone. -/
  | dropped (id : BoundaryId)
  deriving DecidableEq

structure Recorded (α : Type) where
  run : Rendering α
  /-- What is done on a stage inside a frame, in order. -/
  deeds : Stage → Option Frame → List Deed

namespace Recorded

variable {α β : Type}

/-- A rendering that does nothing to boundaries. -/
def quiet (m : Rendering α) : Recorded α :=
  ⟨m, fun _ _ => []⟩

protected def bind (p : Recorded α) (k : α → Recorded β) : Recorded β where
  run := p.run >>= fun a => (k a).run
  deeds stage frame? :=
    let first := p.run stage frame?
    p.deeds stage frame? ++ (k first.value).deeds first.stage first.frame?

instance : Monad Recorded where
  pure a := quiet (pure a)
  bind := Recorded.bind

def ofReading (m : Reading α) : Recorded α :=
  quiet (Rendering.ofReading m)

/-- To do what depends on the stage. -/
def choose (f : Stage → Recorded α) : Recorded α where
  run stage frame? := (f stage).run stage frame?
  deeds stage frame? := (f stage).deeds stage frame?

/-- What is mounted on one stage and not on another. -/
def lost (before after : Stage) : List BoundaryId :=
  (IdMap.keys before.boundaries).filter fun id => !after.isMounted id

def render (id : BoundaryId) (body : Recorded Rendered) : Recorded Unit where
  run := Rendering.render id body.run
  deeds stage frame? :=
    match stage.boundary? id with
    | none => []
    | some b =>
      let inner := some ⟨id, b.children, []⟩
      let finished := (Rendering.render id body.run stage frame?).stage
      .rendered id :: (body.deeds (stage.opened id) inner
        ++ (lost (body.run (stage.opened id) inner).stage finished).map .dropped)

def spawn (role : Role) (node : ViewNode) (ctx : Context) (parent? : Option BoundaryId)
    (body : Recorded Rendered) : Recorded BoundaryId where
  run := Rendering.spawn role node ctx parent? body.run
  deeds stage frame? := (render (stage.lastId + 1) body).deeds
    (Rendering.planted stage role node ctx parent?) frame?

def child (role : Role) (node : ViewNode) (ctx : Context) (body : Recorded Rendered) :
    Recorded BoundaryId where
  run := Rendering.child role node ctx body.run
  deeds stage frame? :=
    match frame? with
    | none => (spawn role node ctx none body).deeds stage none
    | some frame =>
      match frame.previous.head?.filter (stage.shows role node ctx) with
      | some _ => []
      | none => (spawn role node ctx (some frame.owner) body).deeds stage
          (some { frame with previous := frame.previous.tail })

/-! ## The interpreter, keeping account -/

variable (v : Interpreter)

def renderElement (tag : String) (props : Recorded (Members Rendered)) : Recorded Rendered := do
  let props ← props
  match Members.find? tag v.registry with
  | some component => pure (component props)
  | none => pure (.host tag props)

def renderItems (template : ViewNode) (render : Context → Recorded Rendered) (ctx : Context)
    (index : Nat) : List Value → Recorded (List Rendered)
  | [] => pure []
  | item :: rest => do
    let scope := Interpreter.itemContext ctx item index
    let id ← child .item template scope (render scope)
    let others ← renderItems template render ctx (index + 1) rest
    pure (.boundary id :: others)

def renderCollection (source : Recorded Rendered) (template : ViewNode)
    (render : Context → Recorded Rendered) (ctx : Context) : Recorded Rendered := do
  let source ← source
  let items ← ofReading (Interpreter.elementsOf source)
  let rendered ← renderItems template render ctx 0 items
  pure (.sequence rendered)

mutual

def resolve (ctx : Context) : ViewNode → Recorded Rendered
  | .literal value => pure (.value value)
  | .read expression => do
    let value ← ofReading (v.readBinding expression ctx)
    pure (.value value)
  | .write expression => pure (.handler ⟨expression, ctx⟩)
  | .sequence items => do
    let items ← resolveItems ctx items
    pure (.sequence items)
  | .collection source template => do
    let id ← child .collection (.collection source template) ctx
      (renderCollection (resolve ctx source) template (fun scope => resolve scope template) ctx)
    pure (.boundary id)
  | .element tag props => do
    let id ← child .element (.element tag props) ctx (renderElement v tag (resolveProps ctx props))
    pure (.boundary id)
  | .raw document => pure (.raw document)

def resolveItems (ctx : Context) : List ViewNode → Recorded (List Rendered)
  | [] => pure []
  | item :: rest => do
    let first ← resolve ctx item
    let others ← resolveItems ctx rest
    pure (first :: others)

def resolveProps (ctx : Context) : List (String × ViewNode) → Recorded (Members Rendered)
  | [] => pure []
  | (name, prop) :: rest => do
    let first ← resolve ctx prop
    ofReading first.observeDeep
    let others ← resolveProps ctx rest
    pure ((name, first) :: others)

end

def evaluate (role : Role) (node : ViewNode) (ctx : Context) : Recorded Rendered :=
  match role, node with
  | .element, .element tag props => renderElement v tag (resolveProps v ctx props)
  | .collection, .collection source template =>
    renderCollection (resolve v ctx source) template (fun scope => resolve v scope template) ctx
  | _, node => resolve v ctx node

def rerender (id : BoundaryId) : Recorded Unit :=
  choose fun stage =>
    match stage.boundary? id with
    | none => pure ()
    | some b => render id (evaluate v b.role b.node b.context)

def rerenderAll : List BoundaryId → Recorded Nat
  | [] => pure 0
  | id :: rest => choose fun stage =>
    if stage.isMounted id then do
      rerender v id
      let others ← rerenderAll rest
      pure (others + 1)
    else rerenderAll rest

/-- The stage that a flush starts from: all marks are taken away. -/
def unmarked (s : Stage) : Stage :=
  { s with live := { s.live with observers := s.live.observers.takePending.2 } }

def flush : Recorded Nat where
  run stage frame? := (rerenderAll v stage.live.observers.pending).run (unmarked stage) frame?
  deeds stage frame? := (rerenderAll v stage.live.observers.pending).deeds (unmarked stage) frame?

/-! ## What is rendered -/

section Run

variable {v}

theorem run_bind (p : Recorded α) (k : α → Recorded β) :
    (p >>= k).run = p.run >>= fun a => (k a).run := rfl

theorem run_pure (a : α) : (pure a : Recorded α).run = pure a := rfl

/-- What is chosen is done. -/
theorem choose_of_eq {f : Stage → Recorded α} {p : Recorded α} {s : Stage} {frame? : Option Frame}
    (h : f s = p) : (choose f).run s frame? = p.run s frame?
      ∧ (choose f).deeds s frame? = p.deeds s frame? := by
  subst h
  exact ⟨rfl, rfl⟩

/-- What comes second starts from what the first part leaves. -/
theorem bind_of_eq {p : Recorded α} {k : α → Recorded β} {s s' : Stage}
    {frame? frame'? : Option Frame} {a : α} (hvalue : (p.run s frame?).value = a)
    (hstage : (p.run s frame?).stage = s') (hframe : (p.run s frame?).frame? = frame'?) :
    (p >>= k).run s frame?
        = { (k a).run s' frame'? with
            trace := (p.run s frame?).trace.append ((k a).run s' frame'?).trace }
      ∧ (p >>= k).deeds s frame? = p.deeds s frame? ++ (k a).deeds s' frame'? := by
  subst hvalue hstage hframe
  exact ⟨rfl, rfl⟩

theorem run_renderElement (tag : String) (props : Recorded (Members Rendered)) :
    (renderElement v tag props).run = v.renderElement tag props.run := by
  unfold renderElement Interpreter.renderElement
  rw [run_bind]
  refine congrArg _ (funext fun outs => ?_)
  cases Members.find? tag v.registry <;> rfl

theorem run_renderItems (template : ViewNode) (render : Context → Recorded Rendered)
    (ctx : Context) (index : Nat) (items : List Value) :
    (renderItems template render ctx index items).run
      = Interpreter.renderItems template (fun scope => (render scope).run) ctx index items := by
  induction items generalizing index with
  | nil => rfl
  | cons item rest ih =>
    rw [renderItems, Interpreter.renderItems, ← ih (index + 1)]
    rfl

theorem run_renderCollection (source : Recorded Rendered) (template : ViewNode)
    (render : Context → Recorded Rendered) (ctx : Context) :
    (renderCollection source template render ctx).run
      = Interpreter.renderCollection source.run template (fun scope => (render scope).run) ctx := by
  unfold renderCollection Interpreter.renderCollection
  simp only [run_bind, run_renderItems]
  rfl

mutual

theorem run_resolve : ∀ (node : ViewNode) (ctx : Context),
    (resolve v ctx node).run = v.resolve ctx node
  | .literal value, ctx => by rw [resolve, Interpreter.resolve, run_pure]
  | .read expression, ctx => by
    rw [resolve, Interpreter.resolve]
    rfl
  | .write expression, ctx => by rw [resolve, Interpreter.resolve, run_pure]
  | .sequence items, ctx => by
    rw [resolve, Interpreter.resolve, run_bind, run_resolveItems items ctx]
    rfl
  | .collection source template, ctx => by
    rw [resolve, Interpreter.resolve, run_bind]
    have hbody := run_renderCollection (resolve v ctx source) template
      (fun scope => resolve v scope template) ctx
    rw [run_resolve source ctx, funext fun scope => run_resolve template scope] at hbody
    rw [← hbody]
    rfl
  | .element tag props, ctx => by
    rw [resolve, Interpreter.resolve, run_bind, ← run_resolveProps props ctx,
      ← run_renderElement]
    rfl
  | .raw document, ctx => by rw [resolve, Interpreter.resolve, run_pure]

theorem run_resolveItems : ∀ (items : List ViewNode) (ctx : Context),
    (resolveItems v ctx items).run = v.resolveItems ctx items
  | [], ctx => by rw [resolveItems, Interpreter.resolveItems, run_pure]
  | item :: rest, ctx => by
    rw [resolveItems, Interpreter.resolveItems, ← run_resolve item ctx,
      ← run_resolveItems rest ctx]
    rfl

theorem run_resolveProps : ∀ (props : List (String × ViewNode)) (ctx : Context),
    (resolveProps v ctx props).run = v.resolveProps ctx props
  | [], ctx => by rw [resolveProps, Interpreter.resolveProps, run_pure]
  | (name, prop) :: rest, ctx => by
    rw [resolveProps, Interpreter.resolveProps, ← run_resolve prop ctx,
      ← run_resolveProps rest ctx]
    rfl

end

theorem run_evaluate (role : Role) (node : ViewNode) (ctx : Context) :
    (evaluate v role node ctx).run = v.evaluate role node ctx := by
  cases role with
  | element =>
    cases node with
    | element tag props =>
      refine (run_renderElement tag _).trans ?_
      rw [run_resolveProps]
      rfl
    | _ => exact run_resolve _ ctx
  | collection =>
    cases node with
    | collection source template =>
      refine (run_renderCollection _ template _ ctx).trans ?_
      rw [run_resolve, funext fun scope => run_resolve template scope]
      rfl
    | _ => exact run_resolve _ ctx
  | _ => exact run_resolve node ctx

theorem run_rerender (id : BoundaryId) : (rerender v id).run = v.rerender id := by
  funext stage frame?
  unfold rerender Interpreter.rerender choose
  dsimp only
  cases stage.boundary? id with
  | none => rfl
  | some b =>
    show Rendering.render id (evaluate v b.role b.node b.context).run stage frame?
      = Rendering.render id (v.evaluate b.role b.node b.context) stage frame?
    rw [run_evaluate]

theorem run_rerenderAll (ids : List BoundaryId) : (rerenderAll v ids).run = v.rerenderAll ids := by
  induction ids with
  | nil => rfl
  | cons id rest ih =>
    funext stage frame?
    unfold rerenderAll Interpreter.rerenderAll choose
    dsimp only
    split
    · rw [← ih, ← run_rerender]
      rfl
    · rw [ih]

/-- An interpreter that keeps account brings a view up to date as it does without. -/
theorem run_flush : (flush v).run = v.flush := by
  funext stage frame?
  show (rerenderAll v stage.live.observers.pending).run (unmarked stage) frame? = _
  rw [run_rerenderAll]
  rfl

end Run

/-! ## What is accounted for -/

section Deeds

variable {s : Stage} {frame? : Option Frame} {f : Frame} {id : BoundaryId} {b : Boundary}
  {role : Role} {node : ViewNode} {ctx : Context} {body : Recorded Rendered}

/-- A boundary is rendered first, and what it has lost is dropped last. -/
theorem deeds_render (hb : s.boundary? id = some b) :
    (render id body).deeds s frame?
      = .rendered id :: (body.deeds (s.opened id) (some ⟨id, b.children, []⟩)
        ++ (lost (body.run (s.opened id) (some ⟨id, b.children, []⟩)).stage
          ((render id body).run s frame?).stage).map .dropped) := by
  simp only [render, hb]

theorem deeds_child_of_kept (h : f.previous.head?.filter (s.shows role node ctx) = some id) :
    (child role node ctx body).deeds s (some f) = [] := by
  simp only [child, h]

theorem deeds_child_of_spawned (h : f.previous.head?.filter (s.shows role node ctx) = none) :
    (child role node ctx body).deeds s (some f)
      = (spawn role node ctx (some f.owner) body).deeds s
        (some { f with previous := f.previous.tail }) := by
  simp only [child, h]

theorem rerender_of_boundary? (v : Interpreter) (hb : s.boundary? id = some b) :
    (rerender v id).run s frame? = (render id (evaluate v b.role b.node b.context)).run s frame?
      ∧ (rerender v id).deeds s frame?
        = (render id (evaluate v b.role b.node b.context)).deeds s frame? := by
  refine choose_of_eq ?_
  simp only [hb]

end Deeds

end Recorded

end BoundView
