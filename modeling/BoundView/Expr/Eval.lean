import BoundView.Value.Reading

/-!
# Evaluating expressions

Operands and arguments are evaluated from left to right; only `&&` and `||` leave their second
operand aside.  How a named member of a model is read is a parameter, because a member may itself be
computed by an expression.
-/

namespace BoundView

/-- How a named member of a model is read. -/
abbrev MemberReader := ModelRef → String → Reading Value

namespace Value

/-- A member by name; what has no members has an undefined one. -/
def member (get : MemberReader) (name : String) : Value → Reading Value
  | .map ms => pure ((Members.find? name ms).getD .undefined)
  | .model r => get r name
  | _ => pure .undefined

/-- A list's element at a position. -/
def element (items : List Value) (x : Float) : Value :=
  ((position? x).bind fun i => items[i]?).getD .undefined

/-- An element by position or a member by name. -/
def index (get : MemberReader) (target position : Value) : Reading.Fallible Value := do
  match target, position with
  | .undefined, _ => pure .undefined
  | .null, _ => pure .undefined
  | .list items, .number x => pure (element items x)
  | .map _, .string name => Reading.lift (target.member get name)
  | .model _, .string name => Reading.lift (target.member get name)
  | .model r, .number x =>
    if ← Reading.lift (.peek r.isArray) then
      match position? x with
      | some i => Reading.lift (r.readChild (.index i))
      | none => pure .undefined
    -- A model that is no array has no positions.
    else throw (.notIndexable .model .number)
  | _, _ =>
    let kinds ← Reading.lift (.peek fun models => (target.kind models, position.kind models))
    throw (.notIndexable kinds.1 kinds.2)

end Value

namespace Expr

open Reading (Fallible lift)

def typeMismatch (op : BinaryOp) (left right : Value) : Fallible Value := do
  let kinds ← lift (.peek fun models => (left.kind models, right.kind models))
  throw (.typeMismatch op kinds.1 kinds.2)

/-- A value of the wrong shape. -/
def wrongShape {α : Type} (expected : Expected) (v : Value) : Fallible α := do
  let kind ← lift (.peek fun models => v.kind models)
  throw (.shape expected kind)

def applyUnary (op : UnaryOp) (operand : Value) : Fallible Value := do
  match op, operand with
  | .not, v => pure (.bool !v.isTruthy)
  | .neg, .number x => pure (.number (-x))
  | .neg, v =>
    let kind ← lift (.peek fun models => v.kind models)
    throw (.unaryMismatch kind)

/-- A sum of numbers, or a text as soon as either operand is one. -/
def applyAdd (left right : Value) : Fallible Value := do
  match left, right with
  | .number x, .number y => pure (.number (x + y))
  | .string _, _ => concat
  | _, .string _ => concat
  | _, _ => typeMismatch .add left right
where
  concat : Fallible Value := do
    let first ← lift left.display
    let second ← lift right.display
    pure (.string (first ++ second))

def applyArithmetic (op : BinaryOp) (f : Float → Float → Float) (left right : Value) :
    Fallible Value :=
  match left, right with
  | .number x, .number y => pure (.number (f x y))
  | _, _ => typeMismatch op left right

/-- A division, of which zero is no divisor. -/
def applyDivision (op : BinaryOp) (f : Float → Float → Float) (left right : Value) :
    Fallible Value :=
  match left, right with
  | .number x, .number y => if y == 0 then throw .divisionByZero else pure (.number (f x y))
  | _, _ => typeMismatch op left right

/-- An order of numbers, in which what is no number has no place, or of texts by characters. -/
def applyOrder (op : BinaryOp) (numbers : Float → Float → Bool) (texts : String → String → Bool)
    (left right : Value) : Fallible Value :=
  match left, right with
  | .number x, .number y => pure (.bool (numbers x y))
  | .string s, .string t => pure (.bool (texts s t))
  | _, _ => typeMismatch op left right

def applyBinary (op : BinaryOp) (left right : Value) : Fallible Value :=
  match op with
  | .or => pure (if left.isTruthy then left else right)
  | .and => pure (if left.isTruthy then right else left)
  | .equal => pure (.bool (left == right))
  | .unequal => pure (.bool !(left == right))
  | .less => applyOrder .less (fun x y => x < y) (fun s t => s < t) left right
  | .atMost => applyOrder .atMost (fun x y => x ≤ y) (fun s t => !decide (t < s)) left right
  | .greater => applyOrder .greater (fun x y => x > y) (fun s t => t < s) left right
  | .atLeast => applyOrder .atLeast (fun x y => x ≥ y) (fun s t => !decide (s < t)) left right
  | .add => applyAdd left right
  | .sub => applyArithmetic .sub (· - ·) left right
  | .mul => applyArithmetic .mul (· * ·) left right
  | .div => applyDivision .div (· / ·) left right
  | .rem => applyDivision .rem Binary64.remainder left right

/-! ## Functions -/

/-- The number of characters, members or elements. -/
def callLength (v : Value) : Fallible Value := do
  match v with
  | .string s => pure (.number (Binary64.ofNat s.length))
  | .map ms => pure (.number (Binary64.ofNat ms.length))
  | v =>
    match ← lift v.items? with
    | some items => pure (.number (Binary64.ofNat items.length))
    | none => wrongShape .stringOrList v

def callJoin (items separator : Value) : Fallible Value := do
  match ← lift items.items? with
  | none => wrongShape .list items
  | some items =>
    let separator ← lift separator.display
    let texts ← lift (Value.displayAll items)
    pure (.string (String.intercalate separator texts))

/-- Call a function by its name. -/
def callFunction (function : String) (args : List Value) : Fallible Value := do
  if function = "length" then
    match args with
    | [v] => callLength v
    | _ => throw (.arity function 1 args.length)
  else if function = "concat" then
    let texts ← lift (Value.displayAll args)
    pure (.string (String.join texts))
  else if function = "string" then
    match args with
    | [v] => do
      let text ← lift v.display
      pure (.string text)
    | _ => throw (.arity function 1 args.length)
  else if function = "join" then
    match args with
    | [items, separator] => callJoin items separator
    | _ => throw (.arity function 2 args.length)
  else if function = "if" then
    match args with
    | [condition, yes, no] => pure (if condition.isTruthy then yes else no)
    | _ => throw (.arity function 3 args.length)
  else if function = "not" then
    match args with
    | [v] => pure (.bool !v.isTruthy)
    | _ => throw (.arity function 1 args.length)
  else throw (.unknownFunction function)

/-! ## Trees -/

mutual

/-- The value of an expression. -/
def eval (get : MemberReader) (ctx : Context) : Expr → Fallible Value
  | .literal l => pure (Value.ofLiteral l)
  | .name n => pure ((Members.find? n ctx).getD .undefined)
  | .member target field => do
    let target ← eval get ctx target
    lift (target.member get field)
  | .index target position => do
    let target ← eval get ctx target
    let position ← eval get ctx position
    target.index get position
  | .unary op operand => do
    let operand ← eval get ctx operand
    applyUnary op operand
  | .binary op left right => do
    let left ← eval get ctx left
    -- The second operand is not even read where the first decides.
    if op = .and ∧ !left.isTruthy then pure left
    else if op = .or ∧ left.isTruthy then pure left
    else
      let right ← eval get ctx right
      applyBinary op left right
  | .list items => do
    let items ← evalAll get ctx items
    pure (.list items)
  | .call function args => do
    let args ← evalAll get ctx args
    callFunction function args

def evalAll (get : MemberReader) (ctx : Context) : List Expr → Fallible (List Value)
  | [] => pure []
  | e :: rest => do
    let first ← eval get ctx e
    let others ← evalAll get ctx rest
    pure (first :: others)

end

end Expr

end BoundView
