import BoundView.Expr.Token

/-!
# What goes wrong with an expression
-/

namespace BoundView.Expr

inductive UnaryOp where
  | not
  | neg
  deriving DecidableEq, Repr

inductive BinaryOp where
  | or
  | and
  | equal
  | unequal
  | less
  | atMost
  | greater
  | atLeast
  | add
  | sub
  | mul
  | div
  | rem
  deriving DecidableEq, Repr

def BinaryOp.symbol : BinaryOp → Symbol
  | .or => .or
  | .and => .and
  | .equal => .equal
  | .unequal => .unequal
  | .less => .less
  | .atMost => .atMost
  | .greater => .greater
  | .atLeast => .atLeast
  | .add => .plus
  | .sub => .minus
  | .mul => .star
  | .div => .slash
  | .rem => .percent

/-- The kinds of values. -/
inductive Kind where
  | undefined
  | null
  | boolean
  | number
  | string
  | list
  | map
  | model
  | modelArray
  deriving DecidableEq, Repr

def Kind.name : Kind → String
  | .undefined => "undefined"
  | .null => "null"
  | .boolean => "boolean"
  | .number => "number"
  | .string => "string"
  | .list => "list"
  | .map => "map"
  | .model => "model"
  | .modelArray => "model array"

/-- What a parser objects to at a token. -/
inductive Objection where
  | trailingInput
  | symbolExpected (s : Symbol)
  | memberNameExpected
  | emptyParentheses
  | valueExpected
  | tooDeep
  deriving DecidableEq, Repr

def Objection.message : Objection → String
  | .trailingInput => "unexpected trailing input"
  | .symbolExpected s => "expected " ++ Text.tick s.text
  | .memberNameExpected => "expected a member name after `.`"
  | .emptyParentheses => "empty parentheses"
  | .valueExpected => "expected a value"
  | .tooDeep => "expression nested too deeply"

inductive ParseFault where
  /-- No token starts with the character. -/
  | unexpectedCharacter (c : Char)
  /-- A number with digits that are not ASCII. -/
  | invalidNumber
  | unexpectedToken (objection : Objection) (found : Option Token)
  deriving DecidableEq

def ParseFault.message : ParseFault → String
  | .unexpectedCharacter c => "unexpected character " ++ Text.tick c.toString
  | .invalidNumber => "invalid float literal"
  | .unexpectedToken objection (some token) =>
    objection.message ++ ", found " ++ token.describe
  | .unexpectedToken objection none => objection.message ++ ", found end of input"

/-- What a value should have been. -/
inductive Expected where
  | stringOrList
  | list
  | patchCall
  deriving DecidableEq, Repr

def Expected.describe : Expected → String
  | .stringOrList => "a string or list"
  | .list => "a list"
  | .patchCall => "(target, op, path, value?)"

inductive Error where
  | parse (source : String) (offset : Nat) (fault : ParseFault)
  | typeMismatch (op : BinaryOp) (left right : Kind)
  | unaryMismatch (operand : Kind)
  | unknownFunction (name : String)
  | arity (function : String) (expected found : Nat)
  | divisionByZero
  | notIndexable (target index : Kind)
  | shape (expected : Expected) (found : Kind)
  | unknownPatchOp (op : String)
  deriving DecidableEq

def Error.message : Error → String
  | .parse source offset fault =>
    "parse error at offset " ++ toString offset ++ " in " ++ Text.tick source ++ ": "
      ++ fault.message
  | .typeMismatch op left right =>
    "cannot apply " ++ Text.tick op.symbol.text ++ " to " ++ left.name ++ " and " ++ right.name
  | .unaryMismatch operand => "cannot apply `-` to " ++ operand.name
  | .unknownFunction name => "unknown function " ++ Text.tick name
  | .arity function expected found =>
    Text.tick function ++ " expects " ++ toString expected ++ " argument(s), got "
      ++ toString found
  | .divisionByZero => "division by zero"
  | .notIndexable target index => "cannot index " ++ target.name ++ " with " ++ index.name
  | .shape expected found => "expected " ++ expected.describe ++ ", got " ++ found.name
  | .unknownPatchOp op => "expected one of add, replace, remove, got " ++ Text.tick op

end BoundView.Expr
