import BoundView.Expr.Eval
import BoundView.Expr.Parser

/-!
# Computed fields

A computed field is read by evaluating its expression, where `$self` is the object that it belongs
to and `$root` the whole model.  It may read other computed fields, nested to a fixed depth, so a
field that reads itself comes to an end.  Whatever goes wrong is logged, and the field reads as
undefined.
-/

namespace BoundView

/-- How deep the evaluations of computed fields are nested at most. -/
def maxComputedDepth : Nat := 32

/-- What an expression gave, logged by `event` where it failed. -/
def Reading.orUndefined (event : Cause → Event) (m : Reading.Fallible Value) : Reading Value := do
  match ← m.run with
  | .ok v => pure v
  | .error e =>
    Reading.log (event e.message)
    pure .undefined

namespace ModelRef

/-- A named member, with at most so many evaluations of computed fields nested. -/
def memberWithin : Nat → MemberReader
  | 0, r, name => do
    match ← Reading.peek (r.computed? name) with
    | none => r.readChild (.field name)
    | some _ =>
      Reading.log (.computedTooDeep name)
      pure .undefined
  | depth + 1, r, name => do
    match ← Reading.peek (r.computed? name) with
    | none => r.readChild (.field name)
    -- The expression is parsed when the field is read; a field that is never read may be faulty.
    | some expression =>
      match Expr.parse expression with
      | .error e =>
        Reading.log (.computedUnparsed name e.message)
        pure .undefined
      | .ok e =>
        Reading.orUndefined (.computedFailed name) (e.eval (memberWithin depth) (.inside r))

/-- A named member: a computed field, or the value one step down. -/
def member : MemberReader :=
  memberWithin maxComputedDepth

end ModelRef

/-- The value of an expression in a context. -/
def Expr.value (e : Expr) (ctx : Context) : Reading.Fallible Value :=
  e.eval ModelRef.member ctx

/-- The value of an expression that is given as a text. -/
def Expr.valueOf (source : String) (ctx : Context) : Reading.Fallible Value :=
  match Expr.parse source with
  | .ok e => e.value ctx
  | .error e => throw e

end BoundView
