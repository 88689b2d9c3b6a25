import BoundView.Expr.Lexer
import BoundView.Expr.Tree

/-!
# Parsing expressions

From loosest to tightest:

    or       := and ("||" and)*
    and      := equality ("&&" equality)*
    equality := order (("==" | "!=") order)*
    order    := sum (("<=" | ">=" | "<" | ">") sum)*
    sum      := product (("+" | "-") product)*
    product  := operand (("*" | "/" | "%") operand)*
    operand  := ("!" | "-") operand | primary ("." name | "[" or "]")*
    primary  := number | string | name | name "(" list ")" | "(" list ")" | "[" list "]"

Parentheses around one element are transparent, around several they make a list.  The depth of a
tree is limited, and so is the nesting of expressions and of signs in front of operands.
-/

namespace BoundView.Expr

abbrev Tokens := List (Nat × Token)

namespace Parser

/-- What a parser objects to, at the first of the tokens left. -/
structure Failure where
  objection : Objection
  rest : Tokens

abbrev Step (α : Type) := Tokens → Except Failure (α × Tokens)

/-- The depth of the deepest tree, and of the deepest nesting. -/
def maxDepth : Nat := 64

def fail {α : Type} (objection : Objection) : Step α :=
  fun tokens => .error ⟨objection, tokens⟩

/-- Whether the next token is a symbol. -/
def startsWith (s : Symbol) : Tokens → Bool
  | (_, .symbol t) :: _ => s == t
  | _ => false

/-- Read a symbol that has to be there. -/
def expect (s : Symbol) : Step Unit
  | tokens => if startsWith s tokens then .ok ((), tokens.drop 1)
        else fail (.symbolExpected s) tokens

/-- A tree that has just been built, if it is not too deep. -/
def node (e : Expr) : Step Expr
  | tokens => if maxDepth < e.depth then fail .tooDeep tokens else .ok (e, tokens)

/-- The operator of a level that the next token writes. -/
def operator? (ops : List BinaryOp) : Tokens → Option (BinaryOp × Tokens)
  | (_, .symbol s) :: rest => (ops.find? (·.symbol == s)).map (·, rest)
  | _ => none

/-- Operators of one level and their right sides, applied from the left.  Each turn makes the tree
higher, so as much fuel as the tree may have levels is enough. -/
def chain (ops : List BinaryOp) (next : Step Expr) (fuel : Nat) (left : Expr) : Step Expr :=
  fun tokens =>
    match fuel, operator? ops tokens with
    | fuel + 1, some (op, rest) => do
      let (right, rest) ← next rest
      -- Operators of one level lean to the left.
      let (left, rest) ← node (.binary op left right) rest
      chain ops next fuel left rest
    | _, _ => .ok (left, tokens)

def level (ops : List BinaryOp) (next : Step Expr) : Step Expr :=
  fun tokens => do
    let (left, rest) ← next tokens
    chain ops next maxDepth left rest

/-- An expression whose operands are read by `operand`. -/
def levels (operand : Step Expr) : Step Expr :=
  level [.or] <| level [.and] <| level [.equal, .unequal] <|
    level [.atMost, .atLeast, .less, .greater] <| level [.add, .sub] <|
    level [.mul, .div, .rem] operand

/-- The elements of a list behind its first one, up to the closing symbol. -/
def elements (close : Symbol) (expr : Step Expr) (fuel : Nat) : Step (List Expr) :=
  fun tokens =>
    if startsWith close tokens then .ok ([], tokens.drop 1)
    else
      match fuel with
      | 0 => fail (.symbolExpected .comma) tokens
      | fuel + 1 => do
        let (_, rest) ← expect .comma tokens
        let (item, rest) ← expr rest
        let (items, rest) ← elements close expr fuel rest
        .ok (item :: items, rest)

/-- A list up to its closing symbol. -/
def list (close : Symbol) (expr : Step Expr) : Step (List Expr) :=
  fun tokens =>
    if startsWith close tokens then .ok ([], tokens.drop 1)
    else do
      let (item, rest) ← expr tokens
      let (items, rest) ← elements close expr rest.length rest
      .ok (item :: items, rest)

/-- Names that start with a dollar sign stand for the surroundings of an expression; they are
neither functions nor members. -/
def isSpecial (name : String) : Bool :=
  name.toList.head? == some '$'

/-- The value that a word stands for. -/
def word? (name : String) : Option Literal :=
  if name = "true" then some (.bool true)
  else if name = "false" then some (.bool false)
  else if name = "null" then some .null
  else if name = "undefined" then some .undefined
  else none

/-- What parentheses hold; `closing` are the tokens from the closing one on. -/
def parenthesised (items : List Expr) (closing : Tokens) : Step Expr :=
  match items with
  | [] => fun _ => fail .emptyParentheses closing
  | [item] => fun rest => .ok (item, rest)
  | items => node (.list items)

def primary (expr : Step Expr) : Step Expr :=
  fun tokens =>
    match tokens with
    | (_, .number x) :: rest => .ok (.literal (.number x), rest)
    | (_, .string s) :: rest => .ok (.literal (.string s), rest)
    | (_, .name n) :: rest =>
      match word? n with
      | some l => .ok (.literal l, rest)
      | none =>
        -- A name is a function if a list follows it.
        if !isSpecial n && startsWith .openParen rest then do
          let (args, rest) ← list .closeParen expr (rest.drop 1)
          node (.call n args) rest
        else .ok (.name n, rest)
    | (_, .symbol .openParen) :: rest => do
      let (items, behind) ← list .closeParen expr rest
      parenthesised items rest behind
    | (_, .symbol .openBracket) :: rest => do
      let (items, rest) ← list .closeBracket expr rest
      node (.list items) rest
    | _ => fail .valueExpected tokens

/-- Members and positions behind an expression, from left to right.  Each turn makes the tree
higher, as in `chain`. -/
def suffixes (expr : Step Expr) (fuel : Nat) (target : Expr) : Step Expr :=
  fun tokens =>
    match fuel, tokens with
    | fuel + 1, (_, .symbol .dot) :: rest =>
      match rest with
      | (_, .name n) :: behind =>
        if isSpecial n then fail .memberNameExpected rest
        else do
          let (target, rest) ← node (.member target n) behind
          suffixes expr fuel target rest
      | _ => fail .memberNameExpected rest
    | fuel + 1, (_, .symbol .openBracket) :: rest => do
      let (position, rest) ← expr rest
      let (_, rest) ← expect .closeBracket rest
      let (target, rest) ← node (.index target position) rest
      suffixes expr fuel target rest
    | _, _ => .ok (target, tokens)

/-- The sign in front of an operand. -/
def sign? : Tokens → Option (UnaryOp × Tokens)
  | (_, .symbol .bang) :: rest => some (.not, rest)
  | (_, .symbol .minus) :: rest => some (.neg, rest)
  | _ => none

/-- An operand inside which `nesting` more levels may be nested. -/
def operand (nesting : Nat) : Step Expr :=
  fun tokens =>
    match sign? tokens with
    | some (op, rest) => do
      let (inner, rest) ←
        match nesting with
        | 0 => fail .tooDeep rest
        | nesting + 1 => operand nesting rest
      -- The sign is outermost: it applies to the members behind the operand, too.
      node (.unary op inner) rest
    | none => do
      let expr : Step Expr :=
        match nesting with
        | 0 => fail .tooDeep
        | nesting + 1 => levels (operand nesting)
      let (target, rest) ← primary expr tokens
      suffixes expr maxDepth target rest

/-- A whole expression. -/
def expr : Step Expr :=
  levels (operand (maxDepth - 1))

end Parser

/-- The tree of a sequence of tokens. -/
def ofTokens (tokens : Tokens) : Except Parser.Failure Expr := do
  let (e, rest) ← Parser.expr tokens
  match rest with
  | [] => .ok e
  | _ => .error ⟨.trailingInput, rest⟩

/-- The tree of a source. -/
def parse (source : String) : Except Error Expr := do
  let tokens ← tokenize source
  match ofTokens tokens with
  | .ok e => .ok e
  | .error failure =>
    let offset := (failure.rest.head?.map Prod.fst).getD source.utf8ByteSize
    .error (.parse source offset
      (.unexpectedToken failure.objection (failure.rest.head?.map Prod.snd)))

end BoundView.Expr
