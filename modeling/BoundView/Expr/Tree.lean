import BoundView.Expr.Error

/-!
# Expression trees
-/

namespace BoundView

namespace Expr

/-- What a source can write down as a value. -/
inductive Literal where
  | undefined
  | null
  | bool (b : Bool)
  | number (x : Float)
  | string (s : String)
  deriving DecidableEq

end Expr

inductive Expr where
  | literal (l : Expr.Literal)
  | name (n : String)
  | member (target : Expr) (name : String)
  | index (target position : Expr)
  | unary (op : Expr.UnaryOp) (operand : Expr)
  | binary (op : Expr.BinaryOp) (left right : Expr)
  | list (items : List Expr)
  | call (function : String) (args : List Expr)

namespace Expr

instance : Inhabited Expr := ⟨.literal .undefined⟩

mutual

/-- The height of a tree; a leaf has height one. -/
def depth : Expr → Nat
  | .literal _ => 1
  | .name _ => 1
  | .member target _ => 1 + target.depth
  | .index target position => 1 + max target.depth position.depth
  | .unary _ operand => 1 + operand.depth
  | .binary _ left right => 1 + max left.depth right.depth
  | .list items => 1 + depthItems items
  | .call _ args => 1 + depthItems args

def depthItems : List Expr → Nat
  | [] => 0
  | item :: rest => max item.depth (depthItems rest)

end

end Expr

end BoundView
