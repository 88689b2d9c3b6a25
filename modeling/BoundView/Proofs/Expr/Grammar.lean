import BoundView.Expr.Parser
import Mathlib.Data.List.Infix

/-!
# The grammar of expressions

Which trees a sequence of tokens has is told here by rules alone, with no order in which the tokens
are looked at.  The rules of binary operators are recursive on the left, so that operators of one
level lean to the left; no rule stops a tree or a list early.  What the rules leave to the reader is
nesting: an expression inside another one and an operand behind a sign each take one level off.

Main statement: every phrase has a first token, which tells an operand with a sign from one without,
but for lists of arguments, which may be empty.
-/

namespace BoundView.Expr

open BoundView.Expr.Parser (isSpecial word?)

def UnaryOp.symbol : UnaryOp → Symbol
  | .not => .bang
  | .neg => .minus

/-- The binary operators, level by level, the loosest ones first. -/
def operators : List (List BinaryOp) :=
  [[.or], [.and], [.equal, .unequal], [.atMost, .atLeast, .less, .greater], [.add, .sub],
    [.mul, .div, .rem]]

/-- What a sequence of tokens may be, with the tree or the trees that it stands for. -/
inductive Phrase where
  /-- A whole expression. -/
  | expr (e : Expr)
  /-- Operands and operators of these levels; the first level is the loosest. -/
  | level (levels : List (List BinaryOp)) (e : Expr)
  | operand (e : Expr)
  /-- An operand without a sign. -/
  | suffixed (e : Expr)
  | primary (e : Expr)
  /-- One or more expressions with commas between them. -/
  | items (es : List Expr)
  | args (es : List Expr)

/-- The rules of the grammar; `n` bounds how deep expressions and signed operands are nested. -/
inductive Derives : Nat → Phrase → List Token → Prop where
  | expr {n : Nat} {e : Expr} {ts : List Token} (h : Derives n (.level operators e) ts) :
      Derives (n + 1) (.expr e) ts
  -- Levels of binary operators.
  | tightest {n : Nat} {e : Expr} {ts : List Token} (h : Derives n (.operand e) ts) :
      Derives n (.level [] e) ts
  | tighter {n : Nat} {ops : List BinaryOp} {levels : List (List BinaryOp)} {e : Expr}
      {ts : List Token} (h : Derives n (.level levels e) ts) :
      Derives n (.level (ops :: levels) e) ts
  | binary {n : Nat} {ops : List BinaryOp} {levels : List (List BinaryOp)} {op : BinaryOp}
      {left right : Expr} {ts us : List Token} (hop : op ∈ ops)
      (hleft : Derives n (.level (ops :: levels) left) ts)
      (hright : Derives n (.level levels right) us) :
      Derives n (.level (ops :: levels) (.binary op left right)) (ts ++ .symbol op.symbol :: us)
  -- Operands.
  | unary {n : Nat} {e : Expr} {ts : List Token} (op : UnaryOp) (h : Derives n (.operand e) ts) :
      Derives (n + 1) (.operand (.unary op e)) (.symbol op.symbol :: ts)
  | unsigned {n : Nat} {e : Expr} {ts : List Token} (h : Derives n (.suffixed e) ts) :
      Derives n (.operand e) ts
  | bare {n : Nat} {e : Expr} {ts : List Token} (h : Derives n (.primary e) ts) :
      Derives n (.suffixed e) ts
  | member {n : Nat} {e : Expr} {ts : List Token} {name : String}
      (h : Derives n (.suffixed e) ts) (hname : isSpecial name = false) :
      Derives n (.suffixed (.member e name)) (ts ++ [.symbol .dot, .name name])
  | index {n : Nat} {e position : Expr} {ts us : List Token} (h : Derives n (.suffixed e) ts)
      (hposition : Derives n (.expr position) us) :
      Derives n (.suffixed (.index e position))
        (ts ++ .symbol .openBracket :: (us ++ [.symbol .closeBracket]))
  -- Primary expressions.
  | number {n : Nat} (x : Float) : Derives n (.primary (.literal (.number x))) [.number x]
  | string {n : Nat} (s : String) : Derives n (.primary (.literal (.string s))) [.string s]
  | word {n : Nat} {name : String} {l : Literal} (h : word? name = some l) :
      Derives n (.primary (.literal l)) [.name name]
  | name {n : Nat} {name : String} (h : word? name = none) :
      Derives n (.primary (.name name)) [.name name]
  | call {n : Nat} {name : String} {es : List Expr} {ts : List Token} (h : word? name = none)
      (hname : isSpecial name = false) (hargs : Derives n (.args es) ts) :
      Derives n (.primary (.call name es))
        (.name name :: .symbol .openParen :: (ts ++ [.symbol .closeParen]))
  | group {n : Nat} {e : Expr} {ts : List Token} (h : Derives n (.items [e]) ts) :
      Derives n (.primary e) (.symbol .openParen :: (ts ++ [.symbol .closeParen]))
  | tuple {n : Nat} {e e' : Expr} {es : List Expr} {ts : List Token}
      (h : Derives n (.items (e :: e' :: es)) ts) :
      Derives n (.primary (.list (e :: e' :: es)))
        (.symbol .openParen :: (ts ++ [.symbol .closeParen]))
  | list {n : Nat} {es : List Expr} {ts : List Token} (h : Derives n (.args es) ts) :
      Derives n (.primary (.list es))
        (.symbol .openBracket :: (ts ++ [.symbol .closeBracket]))
  -- Lists.
  | none {n : Nat} : Derives n (.args []) []
  | some {n : Nat} {es : List Expr} {ts : List Token} (h : Derives n (.items es) ts) :
      Derives n (.args es) ts
  | last {n : Nat} {e : Expr} {ts : List Token} (h : Derives n (.expr e) ts) :
      Derives n (.items [e]) ts
  | more {n : Nat} {e : Expr} {es : List Expr} {ts us : List Token}
      (h : Derives n (.expr e) ts) (hmore : Derives n (.items es) us) :
      Derives n (.items (e :: es)) (ts ++ .symbol .comma :: us)

/-! ## What phrases begin with -/

/-- Whether a token is the first one of some primary expression. -/
def Token.BeginsPrimary : Token → Prop
  | .symbol s => s = .openParen ∨ s = .openBracket
  | _ => True

/-- Whether a token is the first one of some expression. -/
def Token.Begins (t : Token) : Prop :=
  t.BeginsPrimary ∨ ∃ op : UnaryOp, t = .symbol op.symbol

/-- What the first token of a phrase may be, if there is one. -/
def Phrase.First : Phrase → Token → Prop
  | .suffixed _ | .primary _ => Token.BeginsPrimary
  | _ => Token.Begins

/-- Whether the phrase has a token. -/
def Phrase.Starts (φ : Phrase) (ts : List Token) : Prop :=
  ∃ t us, ts = t :: us ∧ φ.First t

theorem Phrase.Starts.append {φ : Phrase} {ts : List Token} (h : φ.Starts ts) (us : List Token) :
    φ.Starts (ts ++ us) := by
  obtain ⟨t, rest, rfl, ht⟩ := h
  exact ⟨t, rest ++ us, rfl, ht⟩

/-- Only a list of arguments may be empty. -/
theorem Derives.starts {n : Nat} {φ : Phrase} {ts : List Token} (h : Derives n φ ts) :
    φ.Starts ts ∨ φ = .args [] := by
  induction h with
  | expr _ ih | tightest _ ih | tighter _ ih | last _ ih =>
    obtain ⟨t, us, rfl, ht⟩ := ih.resolve_right nofun
    exact .inl ⟨t, us, rfl, ht⟩
  | some _ ih =>
    obtain ⟨t, us, rfl, ht⟩ := ih.resolve_right nofun
    exact .inl ⟨t, us, rfl, ht⟩
  | unsigned _ ih =>
    obtain ⟨t, us, rfl, ht⟩ := ih.resolve_right nofun
    exact .inl ⟨t, us, rfl, .inl ht⟩
  | bare _ ih => exact .inl (ih.resolve_right nofun)
  | binary _ _ _ ih _ | member _ _ ih | index _ _ ih _ =>
    exact .inl ((ih.resolve_right nofun).append _)
  | more _ _ ih _ => exact .inl ((ih.resolve_right nofun).append _)
  | unary op => exact .inl ⟨_, _, rfl, .inr ⟨op, rfl⟩⟩
  | number | string | word | name | call => exact .inl ⟨_, _, rfl, trivial⟩
  | group | tuple => exact .inl ⟨_, _, rfl, .inl rfl⟩
  | list => exact .inl ⟨_, _, rfl, .inr rfl⟩
  | none => exact .inr rfl

end BoundView.Expr
