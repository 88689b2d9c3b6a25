import BoundView.Proofs.Model.Composite
import BoundView.Proofs.Value.Near
import BoundView.View.Interpreter

/-!
# What a view sees

The expressions of a view see the model as `$root`, and as `$self` and `$index` the innermost
element around them, or the model.  Scopes that are equal are near, and near scopes give near
values.
-/

namespace BoundView

namespace Context

variable {model : ModelId} {ctx ctx' : Context} {held : ModelRef → Prop}

/-- What an element of a collection sees. -/
def item (model : ModelId) (value : Value) (index : Float) : Context :=
  [("$root", .model (.root model)), ("$self", value), ("$index", .number index)]

/-- The scopes of a view over a model. -/
inductive Scope (model : ModelId) : Context → Prop where
  | root : Scope model (Context.root model)
  | item (v : Value) (index : Float) (h : v.Plain) : Scope model (Context.item model v index)

theorem Scope.itemContext_eq (h : Scope model ctx) (v : Value) (index : Nat) :
    Interpreter.itemContext ctx v index = Context.item model v (Binary64.ofNat index) := by
  cases h with
  | root =>
    simp [Interpreter.itemContext, Context.root, inside, Context.item, Members.set, ModelRef.root]
  | item => simp [Interpreter.itemContext, Context.item, Members.set]

theorem Scope.itemContext (h : Scope model ctx) {v : Value} (hv : v.Plain) (index : Nat) :
    Scope model (Interpreter.itemContext ctx v index) :=
  h.itemContext_eq v index ▸ .item v _ hv

theorem near_root (hroot : held (.root model)) : (root model).Near held (root model) :=
  .cons _ (.model hroot) (.cons _ (.model hroot) .nil)

theorem near_item {v w : Value} {x y : Float} (hroot : held (.root model)) (h : v.Near held w)
    (hx : Zeros.Same x y) : (item model v x).Near held (item model w y) :=
  .cons _ (.model hroot) (.cons _ h (.cons _ (.number hx) .nil))

theorem Scope.plain (h : Scope model ctx) : ctx.Near (fun _ => True) ctx := by
  cases h with
  | root => exact near_root trivial
  | item v index h => exact near_item trivial h (.refl index)

/-- Scopes that are equal as records are near. -/
theorem Scope.near_of_beq (h : Scope model ctx) (h' : Scope model ctx')
    (hbeq : (Value.map ctx == Value.map ctx') = true) : ctx.Near (fun _ => True) ctx' := by
  have hbeq : (ctx.length == ctx'.length && Value.beqMembers ctx ctx') = true := by
    rw [← Value.beq]
    exact hbeq
  -- The two forms of scopes have different numbers of members.
  cases h with
  | root =>
    cases h' with
    | root => exact near_root trivial
    | item => exact nomatch hbeq
  | item v x hv =>
    cases h' with
    | root => exact nomatch hbeq
    | item w y hw =>
      have hboth : v.beq w = true ∧ (x == y) = true := by
        simpa [Context.item, Value.beqMembers, Members.find?, Value.beq] using hbeq
      exact near_item trivial (Value.near_of_beq hv hboth.1) (Zeros.same_of_beq hboth.2)

end Context

/-! ## Bindings -/

/-- The interpreter with the standard components and the expressions of this library. -/
def Interpreter.standard : Interpreter :=
  ⟨.standard, .standard⟩

section

open Reading (Agree)
open Value (Near NearItems)

variable {before after : Models} {unaffected : Dependency → Prop} {held : ModelRef → Prop}

theorem Interpreter.readBinding_agree (htwins : Twins before after unaffected held)
    {ctx ctx' : Context} (hctx : ctx.Near held ctx') (expression : String) :
    Agree before after unaffected (Near held) (standard.readBinding expression ctx)
      (standard.readBinding expression ctx') :=
  Reading.orUndefined_agree (Expr.valueOf_agree htwins Zeros.congruence_same hctx expression) _ _

/-- The values that a collection may find in an output hold on to no other references. -/
def Rendered.Holds (held : ModelRef → Prop) : Rendered → Prop
  | .value v => Near held v v
  | .sequence outs => ∀ v, .value v ∈ outs → Near held v v
  | _ => True

theorem Interpreter.elementsOf_agree (htwins : Twins before after unaffected held) {out : Rendered}
    (h : out.Holds held) :
    Agree before after unaffected (NearItems held) (elementsOf out) (elementsOf out) := by
  cases out with
  | value v =>
    refine (Value.items?_agree htwins Zeros.congruence_same (show Near held v v from h)).bind ?_
    intro items items' hitems
    cases hitems with
    | none => exact .pure .nil
    | some hitems => exact .pure hitems
  | sequence outs =>
    refine .pure ?_
    have hall : ∀ v, .value v ∈ outs → Near held v v := h
    clear h
    induction outs with
    | nil => exact .nil
    | cons out outs ih =>
      refine .cons ?_ (ih fun v hv => hall v (List.mem_cons_of_mem out hv))
      cases out with
      | value v => exact hall v List.mem_cons_self
      | handler | sequence | host | boundary | raw => exact .undefined
  | handler | host | boundary | raw => exact .pure .nil

end

end BoundView
