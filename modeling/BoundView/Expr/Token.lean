import BoundView.Decimal.Layout
import BoundView.Text.Quoted

/-!
# Tokens of the expression language
-/

namespace BoundView.Expr

inductive Symbol where
  | equal
  | unequal
  | atMost
  | atLeast
  | and
  | or
  | plus
  | minus
  | star
  | slash
  | percent
  | less
  | greater
  | bang
  | openParen
  | closeParen
  | openBracket
  | closeBracket
  | dot
  | comma
  deriving DecidableEq, Repr

def Symbol.text : Symbol → String
  | .equal => "=="
  | .unequal => "!="
  | .atMost => "<="
  | .atLeast => ">="
  | .and => "&&"
  | .or => "||"
  | .plus => "+"
  | .minus => "-"
  | .star => "*"
  | .slash => "/"
  | .percent => "%"
  | .less => "<"
  | .greater => ">"
  | .bang => "!"
  | .openParen => "("
  | .closeParen => ")"
  | .openBracket => "["
  | .closeBracket => "]"
  | .dot => "."
  | .comma => ","

inductive Token where
  | number (x : Float)
  | string (s : String)
  | name (s : String)
  | symbol (s : Symbol)
  deriving DecidableEq

/-- A token as a message shows it. -/
def Token.describe : Token → String
  | .number x => Text.tick (Decimal.plain.write x)
  | .string s => Text.quote s
  | .name s => Text.tick s
  | .symbol s => Text.tick s.text

end BoundView.Expr
