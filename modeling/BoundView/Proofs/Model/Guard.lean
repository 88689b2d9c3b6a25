import BoundView.Proofs.Expr.Agreement
import BoundView.Proofs.Model.Composite
import Mathlib

/-!
# The guard of computed fields

How deep computed fields are nested is bounded by an argument that falls with each evaluation.  Here
reading is written as a program on a state in which every model counts the evaluations that are
running for it; the guard looks at that counter and at nothing else.  Main statement: the program
never has more than `maxComputedDepth` evaluations nested, gives the value and the trace that
reading gives otherwise, and leaves the counters and the documents as they were, however it ends.
-/

namespace BoundView

/-- What a reading that counts works on: the models, how many evaluations of computed fields are
running for each, and the trace so far. -/
structure GuardState where
  models : Models
  running : ModelId → Nat
  trace : Trace

/-- A program on this state.  It has no result where it gave up. -/
abbrev Guarded := StateT GuardState Option

abbrev Guarded.Fallible := ExceptT Expr.Error Guarded

/-- How a named member of a model is read by such a program. -/
abbrev GuardedReader := ModelRef → String → Guarded Value

namespace Guarded

variable {α β : Type}

def giveUp : Guarded α :=
  fun _ => none

/-- A look at what is stored. -/
def read (m : Reading α) : Guarded α := fun s =>
  some ((m s.models).1, { s with trace := s.trace.append (m s.models).2 })

def readFallible (m : Reading.Fallible α) : Fallible α :=
  ExceptT.mk (read m.run)

def running (id : ModelId) : Guarded Nat :=
  fun s => some (s.running id, s)

def setRunning (id : ModelId) (n : Nat) : Guarded Unit :=
  fun s => some ((), { s with running := Function.update s.running id n })

/-! ## Programs -/

section Programs

variable (get : GuardedReader) (ctx : Context)

def memberOf (name : String) : Value → Guarded Value
  | .map ms => pure ((Members.find? name ms).getD .undefined)
  | .model r => get r name
  | _ => pure .undefined

/-- Only a member of a model by its name can be computed; all else is a look at what is stored. -/
def index (target position : Value) : Fallible Value :=
  match target, position with
  | .model r, .string name => ExceptT.lift (get r name)
  | _, _ => readFallible (target.index (fun r name => r.readChild (.field name)) position)

mutual

/-- The value of an expression. -/
def eval : Expr → Fallible Value
  | .literal l => pure (Value.ofLiteral l)
  | .name n => pure ((Members.find? n ctx).getD .undefined)
  | .member target field => do
    let target ← eval target
    ExceptT.lift (memberOf get field target)
  | .index target position => do
    let target ← eval target
    let position ← eval position
    index get target position
  | .unary op operand => do
    let operand ← eval operand
    readFallible (Expr.applyUnary op operand)
  | .binary op left right => do
    let left ← eval left
    if op = .and ∧ !left.isTruthy then pure left
    else if op = .or ∧ left.isTruthy then pure left
    else
      let right ← eval right
      readFallible (Expr.applyBinary op left right)
  | .list items => do
    let items ← evalAll items
    pure (.list items)
  | .call function args => do
    let args ← evalAll args
    readFallible (Expr.callFunction function args)

def evalAll : List Expr → Fallible (List Value)
  | [] => pure []
  | e :: rest => do
    let first ← eval e
    let others ← evalAll rest
    pure (first :: others)

end

end Programs

/-- The value of a computed field.  The counter of the model goes up for the evaluation and down
again behind it, from what it is then. -/
def compute (evaluate : ModelRef → Expr → Fallible Value) (r : ModelRef)
    (name expression : String) :
    Guarded Value := do
  let depth ← running r.model
  if maxComputedDepth ≤ depth then
    read (.log (.computedTooDeep name))
    pure .undefined
  else
    match Expr.parse expression with
    | .error e =>
      read (.log (.computedUnparsed name e.message))
      pure .undefined
    | .ok e =>
      setRunning r.model (depth + 1)
      let result ← (evaluate r e).run
      let depth ← running r.model
      setRunning r.model (depth - 1)
      match result with
      | .ok v => pure v
      | .error e =>
        read (.log (.computedFailed name e.message))
        pure .undefined

def memberBy (evaluate : ModelRef → Expr → Fallible Value) : GuardedReader := fun r name => do
  match ← read (.peek (r.computed? name)) with
  | none => read (r.readChild (.field name))
  | some expression => compute evaluate r name expression

/-- A named member.  The program gives up where more than so many evaluations would be nested, of
which the guard knows nothing. -/
def member : Nat → GuardedReader
  | 0 => memberBy fun _ _ => ExceptT.lift giveUp
  | limit + 1 => memberBy fun r e => eval (member limit) (.inside r) e

end Guarded

namespace Trace

theorem append_empty (t : Trace) : t.append .empty = t := by
  rw [append, empty, List.append_nil, List.append_nil]

theorem append_assoc (t u v : Trace) : (t.append u).append v = t.append (u.append v) := by
  simp only [append, List.append_assoc]

end Trace

/-! ## Values of one model -/

/-- All references in a value are to one model. -/
def Value.Of (id : ModelId) (v : Value) : Prop :=
  Related Eq True (fun r => r.model = id) v v

/-- All references that a context holds are to one model. -/
def Context.Of (id : ModelId) (ctx : Context) : Prop :=
  ctx.Related Eq True (fun r => r.model = id) ctx

/-- What came out right is as it should be. -/
def Outcome.Meets {ε α : Type} (post : α → Prop) : Except ε α → Prop
  | .ok a => post a
  | .error _ => True

open Outcome (Meets)

/-- Over any models, what a reading gives is as it should be. -/
def Reading.Fallible.Yields {α : Type} (post : α → Prop) (m : Reading.Fallible α) : Prop :=
  ∀ models, Meets post (m.run models).1

namespace Reading.Fallible

variable {α β : Type} {post : β → Prop}

theorem Yields.pure {b : β} (h : post b) : Yields post (pure b) :=
  fun _ => h

theorem Yields.throw (e : Expr.Error) : Yields post (throw e) :=
  fun _ => trivial

theorem Yields.bind {m : Reading.Fallible α} {f : α → Reading.Fallible β}
    (h : ∀ a, Yields post (f a)) : Yields post (m >>= f) := by
  intro models
  show Meets post ((m.run >>= ExceptT.bindCont f : Reading _) models).1
  show Meets post (ExceptT.bindCont f (m.run models).1 models).1
  cases (m.run models).1 with
  | error e => exact trivial
  | ok a => exact h a models

end Reading.Fallible

open Reading.Fallible (Yields)

theorem Reading.Fallible.Yields.lift {α : Type} {post : α → Prop} {m : Reading α}
    (h : ∀ models, post (m models).1) : Yields post (Reading.lift m) :=
  h

section Values

variable {id : ModelId} {v w : Value} {vs : List Value}

/-- All references in a list of values are to one model. -/
def Value.ItemsOf (id : ModelId) (vs : List Value) : Prop :=
  RelatedItems Eq True (fun r => r.model = id) vs vs

theorem ModelRef.readChild_of {r : ModelRef} (hr : r.model = id) (seg : Seg) (models : Models) :
    (r.readChild seg models).1.Of id := by
  show ((r.child seg).load models).1.Of id
  unfold load Reading.peek
  dsimp only
  split
  · exact .undefined
  · exact .model hr
  · exact .model hr
  · rename_i leaf harray hobject hnode
    cases leaf with
    | null => exact .null
    | bool b => exact .bool b
    | number n => exact .number rfl
    | string s => exact .string s
    | array items => exact absurd rfl (harray items)
    | object ms => exact absurd rfl (hobject ms)

namespace Value

theorem throwKinds_yields {α : Type} {post : α → Prop} (f : Models → Expr.Kind × Expr.Kind)
    (e : Expr.Kind × Expr.Kind → Expr.Error) :
    Yields post (Reading.lift (.peek f) >>= fun kinds => throw (e kinds)) :=
  .bind fun _ => .throw _

theorem index_yields {get : MemberReader}
    (hget : ∀ r name, r.model = id → ∀ models, (get r name models).1.Of id) {p : Value}
    (h : v.Of id) (hp : p.Of id) : Yields (Value.Of id) (v.index get p) := by
  cases h with
  | undefined | null => cases hp <;> exact .pure .undefined
  | list h =>
    cases hp with
    | number hx => exact .pure (element_related congruence_eq h hx)
    | undefined | null | bool | string | list | map | model => exact throwKinds_yields _ _
  | map hmaps h =>
    cases hp with
    | string name => exact .lift fun _ => Related.getD (h.find? name)
    | undefined | null | bool | number | list | map | model => exact throwKinds_yields _ _
  | @model r h =>
    cases hp with
    | string name => exact .lift (hget r name h)
    | @number x y hx =>
      refine .bind fun array => ?_
      cases array with
      | false => exact .throw _
      | true =>
        simp only [if_true]
        cases position? x with
        | none => exact .pure .undefined
        | some i => exact .lift (ModelRef.readChild_of h (.index i))
    | undefined | null | bool | list | map | model => exact throwKinds_yields _ _
  | bool | number | string => cases hp <;> exact throwKinds_yields _ _

end Value

namespace Expr

theorem typeMismatch_yields {post : Value → Prop} (op : BinaryOp) (v w : Value) :
    Yields post (typeMismatch op v w) :=
  Value.throwKinds_yields _ _

theorem wrongShape_yields {α : Type} {post : α → Prop} (expected : Expected) (v : Value) :
    Yields post (wrongShape expected v) :=
  .bind fun _ => .throw _

theorem applyUnary_yields (op : UnaryOp) (v : Value) :
    Yields (Value.Of id) (applyUnary op v) := by
  cases op with
  | not => exact .pure (.bool _)
  | neg =>
    cases v with
    | number x => exact .pure (.number rfl)
    | undefined | null | bool | string | list | map | model => exact .bind fun _ => .throw _

theorem concat_yields (v w : Value) : Yields (Value.Of id) (applyAdd.concat v w) :=
  .bind fun _ => .bind fun _ => .pure (.string _)

theorem applyAdd_yields (v w : Value) : Yields (Value.Of id) (applyAdd v w) := by
  unfold applyAdd
  split
  · exact .pure (.number rfl)
  · exact concat_yields _ _
  · exact concat_yields _ _
  · exact typeMismatch_yields _ _ _

theorem applyArithmetic_yields (op : BinaryOp) (f : Float → Float → Float) (v w : Value) :
    Yields (Value.Of id) (applyArithmetic op f v w) := by
  unfold applyArithmetic
  split
  · exact .pure (.number rfl)
  · exact typeMismatch_yields _ _ _

theorem applyDivision_yields (op : BinaryOp) (f : Float → Float → Float) (v w : Value) :
    Yields (Value.Of id) (applyDivision op f v w) := by
  unfold applyDivision
  split
  · split
    · exact .throw _
    · exact .pure (.number rfl)
  · exact typeMismatch_yields _ _ _

theorem applyOrder_yields (op : BinaryOp) (numbers : Float → Float → Bool)
    (texts : String → String → Bool) (v w : Value) :
    Yields (Value.Of id) (applyOrder op numbers texts v w) := by
  unfold applyOrder
  split
  · exact .pure (.bool _)
  · exact .pure (.bool _)
  · exact typeMismatch_yields _ _ _

theorem applyBinary_yields (op : BinaryOp) (hv : v.Of id) (hw : w.Of id) :
    Yields (Value.Of id) (applyBinary op v w) := by
  cases op with
  | or | and =>
    refine .pure ?_
    split <;> assumption
  | equal | unequal => exact .pure (.bool _)
  | less | atMost | greater | atLeast => exact applyOrder_yields _ _ _ _ _
  | add => exact applyAdd_yields _ _
  | sub | mul => exact applyArithmetic_yields _ _ _ _
  | div | rem => exact applyDivision_yields _ _ _ _

theorem callLength_yields (v : Value) : Yields (Value.Of id) (callLength v) := by
  unfold callLength
  split
  · exact .pure (.number rfl)
  · exact .pure (.number rfl)
  · refine .bind fun items => ?_
    cases items with
    | none => exact wrongShape_yields _ _
    | some items => exact .pure (.number rfl)

theorem callJoin_yields (v w : Value) : Yields (Value.Of id) (callJoin v w) := by
  refine .bind fun items => ?_
  cases items with
  | none => exact wrongShape_yields _ _
  | some items => exact .bind fun _ => .bind fun _ => .pure (.string _)

theorem callFunction_yields (function : String) (h : Value.ItemsOf id vs) :
    Yields (Value.Of id) (callFunction function vs) := by
  unfold callFunction
  split
  · split
    · exact callLength_yields _
    · exact .throw _
  split
  · exact .bind fun _ => .pure (.string _)
  split
  · split
    · exact .bind fun _ => .pure (.string _)
    · exact .throw _
  split
  · split
    · exact callJoin_yields _ _
    · exact .throw _
  split
  · split
    · refine .pure ?_
      -- One of the arguments is given back as it is.
      cases h with
      | cons _ h =>
        cases h with
        | cons hyes h =>
          cases h with
          | cons hno _ => split <;> assumption
    · exact .throw _
  split
  · split
    · exact .pure (.bool _)
    · exact .throw _
  · exact .throw _

end Expr

end Values

/-! ## What the programs do -/

namespace Guarded

variable {α β : Type} {models : Models} {running : ModelId → Nat} {id : ModelId}

/-- The program does what the reading says, with these counters at its beginning and at its end, and
what it gives is as it should be. -/
structure Does (models : Models) (running : ModelId → Nat) (post : α → Prop) (program : Guarded α)
    (m : Reading α) : Prop where
  post : post (m models).1
  run_eq : ∀ trace, program ⟨models, running, trace⟩
    = some ((m models).1, ⟨models, running, trace.append (m models).2⟩)

namespace Does

variable {post : α → Prop} {post' : β → Prop}

theorem pure {a : α} (h : post a) : Does models running post (pure a) (pure a) where
  post := h
  run_eq trace := by
    show some (a, GuardState.mk models running trace)
      = some (a, GuardState.mk models running (trace.append .empty))
    rw [Trace.append_empty]

theorem bind {program : Guarded α} {m : Reading α} {f : α → Guarded β} {g : α → Reading β}
    (h : Does models running post program m)
    (hf : ∀ a, post a → Does models running post' (f a) (g a)) :
    Does models running post' (program >>= f) (m >>= g) where
  post := (hf _ h.post).post
  run_eq trace := by
    show (program ⟨models, running, trace⟩ >>= fun p => f p.1 p.2) = _
    rw [h.run_eq]
    show f (m models).1 ⟨models, running, trace.append (m models).2⟩ = _
    rw [(hf _ h.post).run_eq, Trace.append_assoc]
    rfl

theorem read {m : Reading α} (h : post (m models).1) :
    Does models running post (Guarded.read m) m where
  post := h
  run_eq _ := rfl

theorem log (e : Event) :
    Does models running (fun _ => True) (Guarded.read (.log e)) (Reading.log e) :=
  .read trivial

theorem peek (f : Models → α) :
    Does models running (fun _ => True) (Guarded.read (.peek f)) (Reading.peek f) :=
  .read trivial

end Does

/-- The same for programs that may fail. -/
abbrev Fallible.Does (models : Models) (running : ModelId → Nat) (post : α → Prop)
    (program : Fallible α) (m : Reading.Fallible α) : Prop :=
  Guarded.Does models running (Meets post) program.run m.run

namespace Fallible.Does

variable {post : α → Prop} {post' : β → Prop}

theorem pure {a : α} (h : post a) : Fallible.Does models running post (pure a) (pure a) :=
  Guarded.Does.pure h

theorem lift {program : Guarded α} {m : Reading α}
    (h : Guarded.Does models running post program m) :
    Fallible.Does models running post (ExceptT.lift program) (Reading.lift m) := by
  show Guarded.Does models running (Meets post) (program >>= fun a => Pure.pure (.ok a))
    (m >>= fun a => Pure.pure (.ok a))
  exact Guarded.Does.bind h fun _ ha => .pure ha

theorem read {m : Reading.Fallible α} (h : Yields post m) :
    Fallible.Does models running post (readFallible m) m :=
  Guarded.Does.read (h models)

theorem bind {program : Fallible α} {m : Reading.Fallible α} {f : α → Fallible β}
    {g : α → Reading.Fallible β} (h : Fallible.Does models running post program m)
    (hf : ∀ a, post a → Fallible.Does models running post' (f a) (g a)) :
    Fallible.Does models running post' (program >>= f) (m >>= g) := by
  show Guarded.Does models running (Meets post') (program.run >>= ExceptT.bindCont f)
    (m.run >>= ExceptT.bindCont g)
  refine Guarded.Does.bind h fun a ha => ?_
  cases a with
  | error e => exact Guarded.Does.pure ha
  | ok a => exact hf a ha

end Fallible.Does

/-! ## Expressions -/

section Expressions

variable {get : GuardedReader} {get' : MemberReader} {ctx : Context} {v p : Value}

theorem memberOf_does
    (hget : ∀ r name, r.model = id → Does models running (Value.Of id) (get r name) (get' r name))
    (name : String) (h : v.Of id) :
    Does models running (Value.Of id) (memberOf get name v) (v.member get' name) := by
  cases h with
  | map _ h => exact .pure (Value.Related.getD (h.find? name))
  | model h => exact hget _ name h
  | undefined | null | bool | number | string | list => exact .pure .undefined

theorem index_does
    (hget : ∀ r name, r.model = id → Does models running (Value.Of id) (get r name) (get' r name))
    (h : v.Of id) (hp : p.Of id) :
    Fallible.Does models running (Value.Of id) (index get v p) (v.index get' p) := by
  have hstored : Yields (Value.Of id) (v.index (fun r name => r.readChild (.field name)) p) :=
    Value.index_yields (fun r name hr => ModelRef.readChild_of hr (.field name)) h hp
  have hread : Fallible.Does models running (Value.Of id)
      (readFallible (v.index (fun r name => r.readChild (.field name)) p))
      (v.index (fun r name => r.readChild (.field name)) p) := .read hstored
  cases h with
  | model h =>
    cases hp with
    | string name => exact .lift (hget _ name h)
    | undefined | null | bool | number | list | map | model => exact hread
  | undefined | null | bool | number | string | list | map => cases hp <;> exact hread

mutual

theorem eval_does
    (hget : ∀ r name, r.model = id → Does models running (Value.Of id) (get r name) (get' r name))
    (hctx : ctx.Of id) : ∀ e : Expr,
      Fallible.Does models running (Value.Of id) (eval get ctx e) (e.eval get' ctx)
  | .literal l => by
    rw [eval, Expr.eval]
    exact .pure (Expr.ofLiteral_related congruence_eq l)
  | .name n => by
    rw [eval, Expr.eval]
    exact .pure (Value.Related.getD (hctx n))
  | .member target field => by
    rw [eval, Expr.eval]
    refine (eval_does hget hctx target).bind fun v hv => ?_
    exact .lift (memberOf_does hget field hv)
  | .index target position => by
    rw [eval, Expr.eval]
    refine (eval_does hget hctx target).bind fun v hv => ?_
    exact (eval_does hget hctx position).bind fun p hp => index_does hget hv hp
  | .unary op operand => by
    rw [eval, Expr.eval]
    exact (eval_does hget hctx operand).bind fun v _ => .read (Expr.applyUnary_yields op v)
  | .binary op left right => by
    rw [eval, Expr.eval]
    refine (eval_does hget hctx left).bind fun v hv => ?_
    split
    · exact .pure hv
    split
    · exact .pure hv
    exact (eval_does hget hctx right).bind fun w hw => .read (Expr.applyBinary_yields op hv hw)
  | .list items => by
    rw [eval, Expr.eval]
    exact (evalAll_does hget hctx items).bind fun vs hvs => .pure (.list hvs)
  | .call function args => by
    rw [eval, Expr.eval]
    exact (evalAll_does hget hctx args).bind fun vs hvs =>
      .read (Expr.callFunction_yields function hvs)

theorem evalAll_does
    (hget : ∀ r name, r.model = id → Does models running (Value.Of id) (get r name) (get' r name))
    (hctx : ctx.Of id) : ∀ es : List Expr,
      Fallible.Does models running (Value.ItemsOf id) (evalAll get ctx es)
        (Expr.evalAll get' ctx es)
  | [] => by
    rw [evalAll, Expr.evalAll]
    exact .pure .nil
  | e :: rest => by
    rw [evalAll, Expr.evalAll]
    refine (eval_does hget hctx e).bind fun v hv => ?_
    exact (evalAll_does hget hctx rest).bind fun vs hvs => .pure (.cons hv hvs)

end

end Expressions

/-! ## Computed fields -/

section Counting

variable {post : α → Prop} {post' : β → Prop}

theorem Does.bind_running {f : Nat → Guarded β} {m : Reading β}
    (h : Does models running post' (f (running id)) m) :
    Does models running post' (Guarded.running id >>= f) m where
  post := h.post
  run_eq := h.run_eq

/-- The counter is one higher while a program runs, and what it was when the rest does. -/
theorem Does.bind_counted {program : Guarded α} {m : Reading α} {f : α → Guarded β}
    {g : α → Reading β}
    (h : Does models (Function.update running id (running id + 1)) post program m)
    (hf : ∀ a, post a → Does models running post' (f a) (g a)) :
    Does models running post' (do
      setRunning id (running id + 1)
      let a ← program
      let depth ← Guarded.running id
      setRunning id (depth - 1)
      f a) (m >>= g) where
  post := (hf _ h.post).post
  run_eq trace := by
    let raised := Function.update running id (running id + 1)
    have hraised : raised id = running id + 1 := Function.update_self _ _ _
    have hback : Function.update raised id (raised id - 1) = running := by
      rw [hraised, Nat.add_sub_cancel, Function.update_idem, Function.update_eq_self]
    show (program ⟨models, raised, trace⟩ >>= fun p =>
      f p.1 { p.2 with running := Function.update p.2.running id (p.2.running id - 1) }) = _
    rw [h.run_eq]
    show f (m models).1 ⟨models, Function.update raised id (raised id - 1), _⟩ = _
    rw [hback, (hf _ h.post).run_eq, Trace.append_assoc]
    rfl

end Counting

section Members

variable {r : ModelRef} {name expression : String} {e : Expr}
  {evaluate : ModelRef → Expr → Fallible Value} {m : Reading.Fallible Value}

theorem failed_does (event : Event) :
    Does models running (Value.Of id) (read (.log event) >>= fun _ => pure .undefined)
      (Reading.log event >>= fun _ => pure .undefined) :=
  (Does.log event).bind fun _ _ => .pure .undefined

theorem compute_does_tooDeep (h : maxComputedDepth ≤ running r.model) :
    Does models running (Value.Of id) (compute evaluate r name expression)
      (Reading.log (.computedTooDeep name) >>= fun _ => pure .undefined) := by
  refine Does.bind_running ?_
  rw [if_pos h]
  exact failed_does _

theorem compute_does_unparsed {failure : Expr.Error} (h : running r.model < maxComputedDepth)
    (hparse : Expr.parse expression = .error failure) :
    Does models running (Value.Of id) (compute evaluate r name expression)
      (Reading.log (.computedUnparsed name failure.message) >>= fun _ => pure .undefined) := by
  refine Does.bind_running ?_
  rw [if_neg (Nat.not_le.2 h), hparse]
  exact failed_does _

theorem compute_does (h : running r.model < maxComputedDepth)
    (hparse : Expr.parse expression = .ok e)
    (hevaluate : Fallible.Does models (Function.update running r.model (running r.model + 1))
      (Value.Of id) (evaluate r e) m) :
    Does models running (Value.Of id) (compute evaluate r name expression)
      (Reading.orUndefined (.computedFailed name) m) := by
  refine Does.bind_running ?_
  rw [if_neg (Nat.not_le.2 h), hparse]
  refine Does.bind_counted hevaluate fun result hresult => ?_
  cases result with
  | error failure => exact failed_does _
  | ok v => exact .pure hresult

theorem memberBy_does_zero (h : maxComputedDepth ≤ running r.model) :
    Does models running (Value.Of r.model) (memberBy evaluate r name) (r.memberWithin 0 name) := by
  rw [ModelRef.memberWithin]
  refine (Does.peek (r.computed? name)).bind fun computed _ => ?_
  cases computed with
  | none => exact .read (ModelRef.readChild_of rfl _ _)
  | some expression => exact compute_does_tooDeep h

theorem memberBy_does_succ {depth : Nat} (h : running r.model < maxComputedDepth)
    (hevaluate : ∀ e, Fallible.Does models
      (Function.update running r.model (running r.model + 1)) (Value.Of r.model) (evaluate r e)
      (e.eval (ModelRef.memberWithin depth) (.inside r))) :
    Does models running (Value.Of r.model) (memberBy evaluate r name)
      (r.memberWithin (depth + 1) name) := by
  rw [ModelRef.memberWithin]
  refine (Does.peek (r.computed? name)).bind fun computed _ => ?_
  cases computed with
  | none => exact .read (ModelRef.readChild_of rfl _ _)
  | some expression =>
    dsimp only
    split
    · rename_i hparse
      exact compute_does_unparsed h hparse
    · rename_i hparse
      exact compute_does h hparse (hevaluate _)

/-- As long as the limit is not below what the guard leaves, the program reads as if the nesting
were bounded by what the guard leaves. -/
theorem member_does (running : ModelId → Nat) (r : ModelRef) (name : String) {limit : Nat}
    (h : maxComputedDepth - running r.model ≤ limit) :
    Does models running (Value.Of r.model) (member limit r name)
      (r.memberWithin (maxComputedDepth - running r.model) name) := by
  induction limit generalizing running r name with
  | zero =>
    rw [Nat.le_zero.1 h]
    exact memberBy_does_zero (by omega)
  | succ limit ih =>
    cases hleft : maxComputedDepth - running r.model with
    | zero => exact memberBy_does_zero (by omega)
    | succ depth =>
      refine memberBy_does_succ (by omega) fun e => ?_
      -- An evaluation reads its own model alone, for which one level less is left.
      refine eval_does (fun q name hq => ?_) (Context.inside_related rfl rfl) e
      let raised := Function.update running r.model (running r.model + 1)
      have hraised : maxComputedDepth - raised q.model = depth := by
        rw [hq, show raised r.model = running r.model + 1 from Function.update_self _ _ _]
        omega
      have hq' := ih raised q name (by omega)
      rwa [hraised, hq] at hq'

/-- Reading a member comes to an end with no more evaluations nested than the guard leaves, which
are `maxComputedDepth` at most.  However it ends, all counters and documents are as they were, so
that a second reading gives the same value.  Where no evaluation is running, it is what reading a
member gives otherwise. -/
theorem member_balanced (models : Models) (running : ModelId → Nat) (r : ModelRef) (name : String) :
    ∃ (value : Value) (left : Trace),
      (∀ (extra : Nat) (trace : Trace),
        member (maxComputedDepth - running r.model + extra) r name ⟨models, running, trace⟩
          = some (value, ⟨models, running, trace.append left⟩))
      ∧ (∀ (extra : Nat) (trace : Trace),
        (do
          let first ← member (maxComputedDepth - running r.model + extra) r name
          let second ← member (maxComputedDepth - running r.model + extra) r name
          pure (first, second) : Guarded (Value × Value)) ⟨models, running, trace⟩
          = some ((value, value), ⟨models, running, (trace.append left).append left⟩))
      ∧ (running r.model = 0 → r.member name models = (value, left)) := by
  let reading := r.memberWithin (maxComputedDepth - running r.model) name
  have hdoes (extra : Nat) : Does models running (Value.Of r.model)
      (member (maxComputedDepth - running r.model + extra) r name) reading :=
    member_does running r name (Nat.le_add_right _ extra)
  refine ⟨(reading models).1, (reading models).2, fun extra => (hdoes extra).run_eq, ?_, ?_⟩
  · intro extra trace
    have hrun := (hdoes extra).run_eq
    generalize member (maxComputedDepth - running r.model + extra) r name = program at hrun ⊢
    -- The second reading begins where the first one ended.
    show (program ⟨models, running, trace⟩ >>= fun p => program p.2 >>= fun q =>
      some ((p.1, q.1), q.2)) = _
    rw [hrun]
    show (program ⟨models, running, trace.append (reading models).2⟩ >>= fun q => _) = _
    rw [hrun]
    rfl
  · intro hzero
    show r.memberWithin maxComputedDepth name models
      = r.memberWithin (maxComputedDepth - running r.model) name models
    rw [hzero, Nat.sub_zero]

end Members

end Guarded

end BoundView
