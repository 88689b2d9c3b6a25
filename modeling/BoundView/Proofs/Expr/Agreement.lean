import BoundView.Model.Computed
import BoundView.Proofs.Value.Agreement

/-!
# Evaluations before and after

An expression is evaluated over models before and over models after.  Main statement: where nothing
that the first evaluation recorded was affected in between, both fail, or both give related values.
The induction follows the tree of the expression, and below it the depth to which computed fields
are nested.
-/

namespace BoundView

open Reading (Agree Fallible)
open Value (Related RelatedItems)

variable {before after : Models} {unaffected : Dependency → Prop} {held : ModelRef → Prop}
  {same : Float → Float → Prop} {maps : Prop}

/-- A way of reading members that agrees before and after. -/
def MemberReader.Agrees (before after : Models) (unaffected : Dependency → Prop)
    (held : ModelRef → Prop) (same : Float → Float → Prop) (maps : Prop) (get : MemberReader) :
    Prop :=
  ∀ r name, held r → Agree before after unaffected (Related same maps held)
    (get r name) (get r name)

namespace Value

theorem member_agree {get : MemberReader} (hget : get.Agrees before after unaffected held same maps)
    (name : String) {v w : Value} (h : Related same maps held v w) :
    Agree before after unaffected (Related same maps held) (v.member get name)
      (w.member get name) := by
  cases h with
  | map _ h => exact .pure (Related.getD (h.find? name))
  | model h => exact hget _ name h
  | undefined | null | bool | number | string | list => exact .pure .undefined

theorem position?_eq (hsame : Congruence same) {x y : Float} (h : same x y) :
    position? x = position? y := by
  rw [position?, position?, hsame.integer?_eq h]

theorem element_related (hsame : Congruence same) {vs ws : List Value}
    (h : RelatedItems same maps held vs ws) {x y : Float} (hx : same x y) :
    Related same maps held (element vs x) (element ws y) := by
  rw [element, element, position?_eq hsame hx]
  cases position? y with
  | none => exact .undefined
  | some i => exact Related.getD (h.getElem? i)

/-- A failure in which the kinds of two values are named. -/
theorem throwKinds_agree {α α' : Type} {rel : α → α' → Prop} (f f' : Models → Expr.Kind × Expr.Kind)
    (e e' : Expr.Kind × Expr.Kind → Expr.Error) :
    Fallible.Agree before after unaffected rel
      (Reading.lift (.peek f) >>= fun kinds => throw (e kinds))
      (Reading.lift (.peek f') >>= fun kinds => throw (e' kinds)) :=
  Fallible.Agree.bind (.lift (.peek_any _ _)) fun _ _ _ => .throw _ _

theorem index_agree (htwins : Twins before after unaffected held) (hsame : Congruence same)
    {get : MemberReader} (hget : get.Agrees before after unaffected held same maps)
    {v w p q : Value} (h : Related same maps held v w) (hp : Related same maps held p q) :
    Fallible.Agree before after unaffected (Related same maps held) (v.index get p)
      (w.index get q) := by
  cases h with
  | undefined | null =>
    cases hp <;> exact .pure .undefined
  | list h =>
    cases hp with
    | number hx => exact .pure (element_related hsame h hx)
    | undefined | null | bool | string | list | map | model => exact throwKinds_agree _ _ _ _
  | map hmaps h =>
    cases hp with
    | string name => exact .lift (member_agree hget name (.map hmaps h))
    | undefined | null | bool | number | list | map | model => exact throwKinds_agree _ _ _ _
  | @model r h =>
    cases hp with
    | string name => exact .lift (member_agree hget name (.model h))
    | @number x y hx =>
      -- This look is not recorded, so it is known from the reference being held.
      have harray : Agree before after unaffected Eq (.peek r.isArray) (.peek r.isArray) :=
        .peek (htwins.isArray_eq r h).symm
      refine Fallible.Agree.bind (.lift harray) ?_
      rintro array _ rfl
      cases array with
      | false => exact .throw _ _
      | true =>
        simp only [if_true]
        -- Near numbers stand for one position.
        rw [position?_eq hsame hx]
        cases position? y with
        | none => exact .pure .undefined
        | some i => exact .lift (ModelRef.readChild_agree htwins hsame r (.index i))
    | undefined | null | bool | list | map | model => exact throwKinds_agree _ _ _ _
  | bool | number | string =>
    cases hp <;> exact throwKinds_agree _ _ _ _

end Value

namespace Expr

theorem typeMismatch_agree (op : BinaryOp) (v w v' w' : Value) :
    Fallible.Agree before after unaffected (Related same maps held) (typeMismatch op v w)
      (typeMismatch op v' w') :=
  Value.throwKinds_agree _ _ _ _

theorem wrongShape_agree {α α' : Type} {rel : α → α' → Prop} (expected : Expected) (v w : Value) :
    Fallible.Agree before after unaffected rel (wrongShape expected v) (wrongShape expected w) :=
  Fallible.Agree.bind (.lift (.peek_any _ _)) fun _ _ _ => .throw _ _

theorem applyUnary_agree (hsame : Congruence same) (op : UnaryOp) {v w : Value}
    (h : Related same maps held v w) :
    Fallible.Agree before after unaffected (Related same maps held) (applyUnary op v)
      (applyUnary op w) := by
  cases op with
  | not => exact .pure (h.isTruthy_eq hsame ▸ .bool _)
  | neg =>
    cases h with
    | number h => exact .pure (.number (hsame.neg h))
    | undefined | null | bool | string | list | map | model =>
      exact Fallible.Agree.bind (.lift (.peek_any _ _)) fun _ _ _ => .throw _ _

theorem concat_agree (htwins : Twins before after unaffected held) (hsame : Congruence same)
    {v w v' w' : Value} (h : Related same maps held v w) (h' : Related same maps held v' w') :
    Fallible.Agree before after unaffected (Related same maps held) (applyAdd.concat v v')
      (applyAdd.concat w w') := by
  refine Fallible.Agree.bind (.lift (Value.display_agree htwins hsame h)) ?_
  rintro first _ rfl
  refine Fallible.Agree.bind (.lift (Value.display_agree htwins hsame h')) ?_
  rintro second _ rfl
  exact .pure (.string _)

theorem applyAdd_agree (htwins : Twins before after unaffected held) (hsame : Congruence same)
    {v w v' w' : Value} (h : Related same maps held v w) (h' : Related same maps held v' w') :
    Fallible.Agree before after unaffected (Related same maps held) (applyAdd v v')
      (applyAdd w w') := by
  have hconcat := concat_agree htwins hsame h h'
  cases h with
  | number h =>
    cases h' with
    | number h' => exact .pure (.number (hsame.add h h'))
    | string => exact hconcat
    | undefined | null | bool | list | map | model => exact typeMismatch_agree _ _ _ _ _
  | string => exact hconcat
  | undefined | null | bool | list | map | model =>
    cases h' with
    | string => exact hconcat
    | undefined | null | bool | number | list | map | model => exact typeMismatch_agree _ _ _ _ _

theorem applyArithmetic_agree (op : BinaryOp) {f : Float → Float → Float}
    (hf : ∀ {x x' y y'}, same x x' → same y y' → same (f x y) (f x' y')) {v w v' w' : Value}
    (h : Related same maps held v w) (h' : Related same maps held v' w') :
    Fallible.Agree before after unaffected (Related same maps held) (applyArithmetic op f v v')
      (applyArithmetic op f w w') := by
  cases h with
  | number h =>
    cases h' with
    | number h' => exact .pure (.number (hf h h'))
    | undefined | null | bool | string | list | map | model => exact typeMismatch_agree _ _ _ _ _
  | undefined | null | bool | string | list | map | model => exact typeMismatch_agree _ _ _ _ _

theorem applyDivision_agree (hsame : Congruence same) (op : BinaryOp) {f : Float → Float → Float}
    (hf : ∀ {x x' y y'}, same x x' → same y y' → (y == 0) = false → same (f x y) (f x' y'))
    {v w v' w' : Value} (h : Related same maps held v w) (h' : Related same maps held v' w') :
    Fallible.Agree before after unaffected (Related same maps held) (applyDivision op f v v')
      (applyDivision op f w w') := by
  cases h with
  | number h =>
    cases h' with
    | @number y y' h' =>
      rw [applyDivision, applyDivision, ← hsame.beq_eq h' (hsame.refl 0)]
      cases hzero : y == 0 with
      | true => exact .throw _ _
      | false => exact .pure (.number (hf h h' hzero))
    | undefined | null | bool | string | list | map | model => exact typeMismatch_agree _ _ _ _ _
  | undefined | null | bool | string | list | map | model => exact typeMismatch_agree _ _ _ _ _

theorem applyOrder_agree (op : BinaryOp) (numbers : Float → Float → Bool)
    (hnumbers : ∀ {x x' y y'}, same x x' → same y y' → numbers x y = numbers x' y')
    (texts : String → String → Bool) {v w v' w' : Value}
    (h : Related same maps held v w) (h' : Related same maps held v' w') :
    Fallible.Agree before after unaffected (Related same maps held)
      (applyOrder op numbers texts v v')
      (applyOrder op numbers texts w w') := by
  cases h with
  | number h =>
    cases h' with
    | number h' => exact .pure (hnumbers h h' ▸ .bool _)
    | undefined | null | bool | string | list | map | model => exact typeMismatch_agree _ _ _ _ _
  | string =>
    cases h' with
    | string => exact .pure (.bool _)
    | undefined | null | bool | number | list | map | model => exact typeMismatch_agree _ _ _ _ _
  | undefined | null | bool | list | map | model => exact typeMismatch_agree _ _ _ _ _

theorem applyBinary_agree (htwins : Twins before after unaffected held) (hsame : Congruence same)
    (op : BinaryOp) {v w v' w' : Value} (h : Related same maps held v w)
    (h' : Related same maps held v' w') :
    Fallible.Agree before after unaffected (Related same maps held) (applyBinary op v v')
      (applyBinary op w w') := by
  cases op with
  | or =>
    refine .pure ?_
    rw [h.isTruthy_eq hsame]
    split <;> assumption
  | and =>
    refine .pure ?_
    rw [h.isTruthy_eq hsame]
    split <;> assumption
  | equal =>
    have hbeq : (v == v') = (w == w') := Related.beq_eq hsame h h'
    exact .pure (hbeq ▸ .bool _)
  | unequal =>
    have hbeq : (v == v') = (w == w') := Related.beq_eq hsame h h'
    exact .pure (hbeq ▸ .bool _)
  | less =>
    exact applyOrder_agree .less (fun x y => decide (x < y)) (fun h h' => hsame.lt_eq h h') _ h h'
  | atMost =>
    exact applyOrder_agree .atMost (fun x y => decide (x ≤ y)) (fun h h' => hsame.le_eq h h') _ h h'
  | greater =>
    exact applyOrder_agree .greater (fun x y => decide (y < x))
      (fun h h' => hsame.lt_eq h' h) _ h h'
  | atLeast =>
    exact applyOrder_agree .atLeast (fun x y => decide (y ≤ x))
      (fun h h' => hsame.le_eq h' h) _ h h'
  | add => exact applyAdd_agree htwins hsame h h'
  | sub => exact applyArithmetic_agree _ hsame.sub h h'
  | mul => exact applyArithmetic_agree _ hsame.mul h h'
  | div => exact applyDivision_agree hsame _ hsame.div h h'
  | rem => exact applyDivision_agree hsame _ hsame.remainder h h'

/-! ## Functions -/

theorem callLength_agree (htwins : Twins before after unaffected held) (hsame : Congruence same)
    {v w : Value} (h : Related same maps held v w) :
    Fallible.Agree before after unaffected (Related same maps held) (callLength v)
      (callLength w) := by
  have hitems := Fallible.Agree.lift (Value.items?_agree htwins hsame h)
  cases h with
  | string => exact .pure (.number (hsame.refl _))
  | map _ h =>
    refine .pure (.number ?_)
    rw [h.length_eq]
    exact hsame.refl _
  | undefined | null | bool | number | list | model =>
    refine hitems.bind fun items items' hrel => ?_
    cases hrel with
    | none => exact wrongShape_agree _ _ _
    | some hrel =>
      refine .pure (.number ?_)
      rw [hrel.length_eq]
      exact hsame.refl _

theorem callJoin_agree (htwins : Twins before after unaffected held) (hsame : Congruence same)
    {v w v' w' : Value} (h : Related same maps held v w) (h' : Related same maps held v' w') :
    Fallible.Agree before after unaffected (Related same maps held) (callJoin v v')
      (callJoin w w') := by
  refine Fallible.Agree.bind (.lift (Value.items?_agree htwins hsame h))
    fun items items' hitems => ?_
  cases hitems with
  | none => exact wrongShape_agree _ _ _
  | some hitems =>
    refine Fallible.Agree.bind (.lift (Value.display_agree htwins hsame h')) ?_
    rintro separator _ rfl
    refine Fallible.Agree.bind (.lift (Value.displayAll_agree htwins hsame hitems)) ?_
    rintro texts _ rfl
    exact .pure (.string _)

theorem callFunction_agree (htwins : Twins before after unaffected held) (hsame : Congruence same)
    (function : String) {vs ws : List Value} (h : RelatedItems same maps held vs ws) :
    Fallible.Agree before after unaffected (Related same maps held) (callFunction function vs)
      (callFunction function ws) := by
  unfold callFunction
  split
  · match h with
    | .nil => exact .throw _ _
    | .cons h .nil => exact callLength_agree htwins hsame h
    | .cons _ (.cons _ _) => exact .throw _ _
  split
  · refine Fallible.Agree.bind (.lift (Value.displayAll_agree htwins hsame h)) ?_
    rintro texts _ rfl
    exact .pure (.string _)
  split
  · match h with
    | .nil => exact .throw _ _
    | .cons h .nil =>
      refine Fallible.Agree.bind (.lift (Value.display_agree htwins hsame h)) ?_
      rintro text _ rfl
      exact .pure (.string _)
    | .cons _ (.cons _ _) => exact .throw _ _
  split
  · match h with
    | .nil => exact .throw _ _
    | .cons _ .nil => exact .throw _ _
    | .cons h (.cons h' .nil) => exact callJoin_agree htwins hsame h h'
    | .cons _ (.cons _ (.cons _ _)) => exact .throw _ _
  split
  · match h with
    | .nil => exact .throw _ _
    | .cons _ .nil => exact .throw _ _
    | .cons _ (.cons _ .nil) => exact .throw _ _
    | .cons hcondition (.cons hyes (.cons hno .nil)) =>
      refine .pure ?_
      rw [hcondition.isTruthy_eq hsame]
      split <;> assumption
    | .cons _ (.cons _ (.cons _ (.cons _ _))) => exact .throw _ _
  split
  · match h with
    | .nil => exact .throw _ _
    | .cons h .nil => exact .pure (h.isTruthy_eq hsame ▸ .bool _)
    | .cons _ (.cons _ _) => exact .throw _ _
  · exact .throw _ _

/-! ## Trees -/

theorem ofLiteral_related (hsame : Congruence same) (l : Literal) :
    Related same maps held (Value.ofLiteral l) (Value.ofLiteral l) := by
  cases l with
  | undefined => exact .undefined
  | null => exact .null
  | bool b => exact .bool b
  | number x => exact .number (hsame.refl x)
  | string s => exact .string s

variable {ctx ctx' : Context}

mutual

theorem eval_agree (htwins : Twins before after unaffected held) (hsame : Congruence same)
    {get : MemberReader} (hget : get.Agrees before after unaffected held same maps)
    (hctx : ctx.Related same maps held ctx') :
    ∀ e : Expr, Fallible.Agree before after unaffected (Related same maps held) (e.eval get ctx)
      (e.eval get ctx')
  | .literal l => by
    rw [eval, eval]
    exact .pure (ofLiteral_related hsame l)
  | .name n => by
    rw [eval, eval]
    exact .pure (Related.getD (hctx n))
  | .member target field => by
    rw [eval, eval]
    refine Fallible.Agree.bind (eval_agree htwins hsame hget hctx target) fun v w h => ?_
    exact .lift (Value.member_agree hget field h)
  | .index target position => by
    rw [eval, eval]
    refine Fallible.Agree.bind (eval_agree htwins hsame hget hctx target) fun v w h => ?_
    refine Fallible.Agree.bind (eval_agree htwins hsame hget hctx position) fun p q hp => ?_
    exact Value.index_agree htwins hsame hget h hp
  | .unary op operand => by
    rw [eval, eval]
    refine Fallible.Agree.bind (eval_agree htwins hsame hget hctx operand) fun v w h => ?_
    exact applyUnary_agree hsame op h
  | .binary op left right => by
    rw [eval, eval]
    refine Fallible.Agree.bind (eval_agree htwins hsame hget hctx left) fun v w h => ?_
    -- Whether the right side is evaluated hangs on the left one alone.
    rw [h.isTruthy_eq hsame]
    split
    · exact .pure h
    split
    · exact .pure h
    refine Fallible.Agree.bind (eval_agree htwins hsame hget hctx right) fun v' w' h' => ?_
    exact applyBinary_agree htwins hsame op h h'
  | .list items => by
    rw [eval, eval]
    refine Fallible.Agree.bind (evalAll_agree htwins hsame hget hctx items) fun vs ws h => ?_
    exact .pure (.list h)
  | .call function args => by
    rw [eval, eval]
    refine Fallible.Agree.bind (evalAll_agree htwins hsame hget hctx args) fun vs ws h => ?_
    exact callFunction_agree htwins hsame function h

theorem evalAll_agree (htwins : Twins before after unaffected held) (hsame : Congruence same)
    {get : MemberReader} (hget : get.Agrees before after unaffected held same maps)
    (hctx : ctx.Related same maps held ctx') :
    ∀ es : List Expr, Fallible.Agree before after unaffected (RelatedItems same maps held)
      (evalAll get ctx es) (evalAll get ctx' es)
  | [] => by
    rw [evalAll, evalAll]
    exact .pure .nil
  | e :: rest => by
    rw [evalAll, evalAll]
    refine Fallible.Agree.bind (eval_agree htwins hsame hget hctx e) fun v w h => ?_
    refine Fallible.Agree.bind (evalAll_agree htwins hsame hget hctx rest) fun vs ws hs => ?_
    exact .pure (.cons h hs)

end

end Expr

/-! ## Computed fields -/

theorem Reading.orUndefined_agree {m m' : Fallible Value}
    (h : Fallible.Agree before after unaffected (Related same maps held) m m')
    (event event' : Cause → Event) :
    Agree before after unaffected (Related same maps held) (Reading.orUndefined event m)
      (Reading.orUndefined event' m') := by
  refine Agree.bind h fun a b hab => ?_
  cases hab with
  | error e e' => exact (Agree.log _ _).bind fun _ _ _ => .pure .undefined
  | ok hab => exact .pure hab

theorem Context.inside_related {r : ModelRef} (hr : held r) (hroot : held (.root r.model)) :
    (Context.inside r).Related same maps held (Context.inside r) :=
  .cons _ (.model hroot) (.cons _ (.model hr) .nil)

theorem ModelRef.memberWithin_agrees (htwins : Twins before after unaffected held)
    (hsame : Congruence same) (depth : Nat) :
    (ModelRef.memberWithin depth).Agrees before after unaffected held same maps := by
  have hcomputed : ∀ (r : ModelRef) name,
      Agree before after unaffected Eq (Reading.peek (r.computed? name))
        (Reading.peek (r.computed? name)) :=
    fun r name => .peek (htwins.computed?_eq r name).symm
  induction depth with
  | zero =>
    intro r name hr
    rw [memberWithin]
    refine (hcomputed r name).bind ?_
    rintro computed _ rfl
    cases computed with
    | none => exact ModelRef.readChild_agree htwins hsame r _
    | some expression => exact (Agree.log _ _).bind fun _ _ _ => .pure .undefined
  | succ depth ih =>
    intro r name hr
    rw [memberWithin]
    refine (hcomputed r name).bind ?_
    rintro computed _ rfl
    cases computed with
    | none => exact ModelRef.readChild_agree htwins hsame r _
    | some expression =>
      cases hparse : Expr.parse expression with
      | error e =>
        simp only [hparse]
        exact (Agree.log _ _).bind fun _ _ _ => .pure .undefined
      | ok e =>
        simp only [hparse]
        -- The field is evaluated inside its object, one level deeper.
        refine Reading.orUndefined_agree (Expr.eval_agree htwins hsame ih ?_ e) _ _
        exact Context.inside_related hr (htwins.held_root r hr)

theorem Expr.value_agree (htwins : Twins before after unaffected held) (hsame : Congruence same)
    {ctx ctx' : Context} (hctx : ctx.Related same maps held ctx') (e : Expr) :
    Fallible.Agree before after unaffected (Related same maps held) (e.value ctx) (e.value ctx') :=
  Expr.eval_agree htwins hsame (ModelRef.memberWithin_agrees htwins hsame maxComputedDepth) hctx e

theorem Expr.valueOf_agree (htwins : Twins before after unaffected held) (hsame : Congruence same)
    {ctx ctx' : Context} (hctx : ctx.Related same maps held ctx') (source : String) :
    Fallible.Agree before after unaffected (Related same maps held) (Expr.valueOf source ctx)
      (Expr.valueOf source ctx') := by
  unfold valueOf
  split
  · exact Expr.value_agree htwins hsame hctx _
  · exact .throw _ _

end BoundView
