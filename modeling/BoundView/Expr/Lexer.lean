import BoundView.Decimal.Reader
import BoundView.Expr.Error
import BoundView.Text.Blank
import BoundView.Text.ByteLength
import BoundView.Text.DecimalDigit

/-!
# Splitting expressions into tokens

A source is a sequence of lexemes, each the longest that starts where the one before ends.  Blanks
separate tokens and are dropped.  Offsets count bytes of UTF-8.
-/

namespace BoundView.Expr

inductive Lexeme where
  | blank
  | number
  | quoted
  | name
  | symbol (s : Symbol)
  deriving DecidableEq, Repr

namespace Lexeme

/-- A lexeme with its characters, and the text behind it. -/
structure Match where
  lexeme : Lexeme
  taken : List Char
  rest : List Char

/-- The characters of a class at the start of a text, at least one, and the text behind them. -/
def run? (p : Char → Bool) (cs : List Char) : Option (List Char × List Char) :=
  match cs.takeWhile p with
  | [] => none
  | taken => some (taken, cs.dropWhile p)

/-- A point and digits, if digits follow the point. -/
def fraction (cs : List Char) : List Char × List Char :=
  match cs with
  | '.' :: rest =>
    match run? Text.isDecimalDigit rest with
    | some (taken, rest) => ('.' :: taken, rest)
    | none => ([], cs)
  | _ => ([], cs)

/-- The sign of a power of ten. -/
def sign (cs : List Char) : List Char × List Char :=
  match cs with
  | '+' :: rest => (['+'], rest)
  | '-' :: rest => (['-'], rest)
  | _ => ([], cs)

/-- A mark, a sign and digits, if digits follow. -/
def exponent (cs : List Char) : List Char × List Char :=
  match cs with
  | c :: rest =>
    if c = 'e' ∨ c = 'E' then
      match run? Text.isDecimalDigit (sign rest).2 with
      | some (taken, behind) => (c :: (sign rest).1 ++ taken, behind)
      | none => ([], cs)
    else ([], cs)
  | [] => ([], [])

def number? (cs : List Char) : Option (List Char × List Char) :=
  match run? Text.isDecimalDigit cs with
  | none => none
  | some (whole, rest) =>
    let (point, rest) := fraction rest
    let (power, rest) := exponent rest
    some (whole ++ point ++ power, rest)

/-- The rest of a quoted string, with its closing quote.  A backslash stands before any character
but a line feed. -/
def quotedRest? (quote : Char) : List Char → Option (List Char × List Char)
  | [] => none
  | ['\\'] => none
  | '\\' :: c :: rest =>
    -- A line feed cannot be escaped.
    if c = '\n' then none
    else (quotedRest? quote rest).map fun (taken, rest) => ('\\' :: c :: taken, rest)
  | c :: rest =>
    if c = quote then some ([c], rest)
    else (quotedRest? quote rest).map fun (taken, rest) => (c :: taken, rest)

def isNameStart (c : Char) : Bool :=
  c.isAlpha || c == '_'

def isNamePart (c : Char) : Bool :=
  c.isAlphanum || c == '_'

/-- A name without its dollar sign. -/
def plainName? (cs : List Char) : Option (List Char × List Char) :=
  match cs with
  | c :: rest =>
    if isNameStart c then some (c :: rest.takeWhile isNamePart, rest.dropWhile isNamePart) else none
  | [] => none

def name? (cs : List Char) : Option (List Char × List Char) :=
  match cs with
  | '$' :: rest => (plainName? rest).map fun (taken, rest) => ('$' :: taken, rest)
  | _ => plainName? cs

/-- The symbol of two characters, if they are one. -/
def longSymbol? (c d : Char) : Option Symbol :=
  match c, d with
  | '=', '=' => some .equal
  | '!', '=' => some .unequal
  | '<', '=' => some .atMost
  | '>', '=' => some .atLeast
  | '&', '&' => some .and
  | '|', '|' => some .or
  | _, _ => none

def shortSymbol? : Char → Option Symbol
  | '+' => some .plus
  | '-' => some .minus
  | '*' => some .star
  | '/' => some .slash
  | '%' => some .percent
  | '<' => some .less
  | '>' => some .greater
  | '!' => some .bang
  | '(' => some .openParen
  | ')' => some .closeParen
  | '[' => some .openBracket
  | ']' => some .closeBracket
  | '.' => some .dot
  | ',' => some .comma
  | _ => none

def symbol? (cs : List Char) : Option (Symbol × List Char × List Char) :=
  let short (c : Char) (rest : List Char) := (shortSymbol? c).map fun s => (s, [c], rest)
  match cs with
  | [] => none
  | [c] => short c []
  | c :: d :: rest =>
    match longSymbol? c d with
    | some s => some (s, [c, d], rest)
    -- `=` alone, for instance, is no symbol at all.
    | none => short c (d :: rest)

/-- The longest lexeme at the start of a text. -/
def first? (cs : List Char) : Option Match :=
  match cs with
  | [] => none
  | c :: rest =>
    let of (lexeme : Lexeme) : List Char × List Char → Match
      | (taken, rest) => ⟨lexeme, taken, rest⟩
    if Text.isBlank c then (run? Text.isBlank cs).map (of .blank)
    else if Text.isDecimalDigit c then (number? cs).map (of .number)
    else if c = '"' ∨ c = '\x27' then
      (quotedRest? c rest).map fun (taken, rest) => ⟨.quoted, c :: taken, rest⟩
    -- A dollar sign without a name behind it starts no lexeme.
    else if isNameStart c || c == '$' then (name? cs).map (of .name)
    else (symbol? cs).map fun (s, taken, rest) => ⟨.symbol s, taken, rest⟩

private theorem run?_append {p : Char → Bool} {cs taken rest : List Char}
    (h : run? p cs = some (taken, rest)) : taken ++ rest = cs ∧ taken ≠ [] := by
  simp only [run?] at h
  split at h
  · cases h
  · rename_i hne
    cases h
    exact ⟨List.takeWhile_append_dropWhile, hne⟩

private theorem fraction_append (cs : List Char) : (fraction cs).1 ++ (fraction cs).2 = cs := by
  unfold fraction
  split
  · split
    · rename_i h
      simp [(run?_append h).1]
    · rfl
  · rfl

private theorem sign_append (cs : List Char) : (sign cs).1 ++ (sign cs).2 = cs := by
  unfold sign
  split <;> rfl

private theorem exponent_append (cs : List Char) : (exponent cs).1 ++ (exponent cs).2 = cs := by
  unfold exponent
  split
  · rename_i c rest
    split
    · split
      · rename_i h
        have := (run?_append h).1
        simp [this, sign_append]
      · rfl
    · rfl
  · rfl

private theorem number?_append {cs taken rest : List Char} (h : number? cs = some (taken, rest)) :
    taken ++ rest = cs ∧ taken ≠ [] := by
  simp only [number?] at h
  split at h
  · cases h
  · rename_i whole behind hw
    have ⟨happ, hne⟩ := run?_append hw
    cases h
    refine ⟨?_, by simp [hne]⟩
    rw [List.append_assoc, exponent_append, List.append_assoc, fraction_append, happ]

private theorem quotedRest?_append {quote : Char} {cs taken rest : List Char}
    (h : quotedRest? quote cs = some (taken, rest)) : taken ++ rest = cs := by
  fun_induction quotedRest? quote cs generalizing taken rest with
  | case1 => cases h
  | case2 => cases h
  | case3 => cases h
  | case4 c tail _ ih =>
    obtain ⟨⟨t, r⟩, hr, he⟩ := Option.map_eq_some_iff.1 h
    cases he
    simp [ih hr]
  | case5 => cases h; rfl
  | case6 c tail _ _ _ ih =>
    obtain ⟨⟨t, r⟩, hr, he⟩ := Option.map_eq_some_iff.1 h
    cases he
    simp [ih hr]

private theorem plainName?_append {cs taken rest : List Char}
    (h : plainName? cs = some (taken, rest)) : taken ++ rest = cs ∧ taken ≠ [] := by
  unfold plainName? at h
  split at h
  · split at h
    · cases h
      simp [List.takeWhile_append_dropWhile]
    · cases h
  · cases h

private theorem name?_append {cs taken rest : List Char} (h : name? cs = some (taken, rest)) :
    taken ++ rest = cs ∧ taken ≠ [] := by
  unfold name? at h
  split at h
  · obtain ⟨⟨t, r⟩, hr, he⟩ := Option.map_eq_some_iff.1 h
    cases he
    simp [(plainName?_append hr).1]
  · exact plainName?_append h

private theorem symbol?_append {cs taken rest : List Char} {s : Symbol}
    (h : symbol? cs = some (s, taken, rest)) : taken ++ rest = cs ∧ taken ≠ [] := by
  simp only [symbol?] at h
  split at h
  · cases h
  · obtain ⟨_, _, he⟩ := Option.map_eq_some_iff.1 h
    cases he
    simp
  · split at h
    · cases h
      simp
    · obtain ⟨_, _, he⟩ := Option.map_eq_some_iff.1 h
      cases he
      simp

/-- A lexeme and the text behind it are the text, and no lexeme is empty. -/
theorem first?_append {cs : List Char} {m : Match} (h : first? cs = some m) :
    m.taken ++ m.rest = cs ∧ m.taken ≠ [] := by
  simp only [first?] at h
  split at h
  · cases h
  · split at h
    · obtain ⟨⟨t, r⟩, hr, he⟩ := Option.map_eq_some_iff.1 h
      cases he
      exact run?_append hr
    · split at h
      · obtain ⟨⟨t, r⟩, hr, he⟩ := Option.map_eq_some_iff.1 h
        cases he
        exact number?_append hr
      · split at h
        · obtain ⟨⟨t, r⟩, hr, he⟩ := Option.map_eq_some_iff.1 h
          cases he
          simp [quotedRest?_append hr]
        · split at h
          · obtain ⟨⟨t, r⟩, hr, he⟩ := Option.map_eq_some_iff.1 h
            cases he
            exact name?_append hr
          · obtain ⟨⟨s, t, r⟩, hr, he⟩ := Option.map_eq_some_iff.1 h
            cases he
            exact symbol?_append hr

theorem length_rest_lt {cs : List Char} {m : Match} (h : first? cs = some m) :
    m.rest.length < cs.length := by
  have ⟨happ, hne⟩ := first?_append h
  rw [← happ, List.length_append]
  have := List.length_pos_iff.2 hne
  omega

/-- The text of a quoted string without its quotes: a backslash before `n`, `t` or `r` writes a
line feed, tab or carriage return, and before any other character that character. -/
def unquote : List Char → List Char
  | [] => []
  | ['\\'] => []
  | '\\' :: c :: rest =>
    (if c = 'n' then '\n' else if c = 't' then '\t' else if c = 'r' then '\r' else c)
      :: unquote rest
  | c :: rest => c :: unquote rest

/-- The token that a lexeme writes; blanks write none. -/
def token (lexeme : Lexeme) (taken : List Char) : Except ParseFault (Option Token) :=
  match lexeme with
  | .blank => .ok none
  | .number =>
    match Decimal.read? (String.ofList taken) with
    | some x => .ok (some (.number x))
    | none => .error .invalidNumber
  | .quoted => .ok (some (.string (String.ofList (unquote (taken.drop 1).dropLast))))
  | .name => .ok (some (.name (String.ofList taken)))
  | .symbol s => .ok (some (.symbol s))

end Lexeme

/-- The tokens of a text that stands at `offset`, each with its own offset; or the offset and cause
of the first fault. -/
def tokensFrom (offset : Nat) (cs : List Char) : Except (Nat × ParseFault) (List (Nat × Token)) :=
  match _h : Lexeme.first? cs with
  | none =>
    match cs with
    | [] => .ok []
    | c :: _ => .error (offset, .unexpectedCharacter c)
  | some m =>
    match m.lexeme.token m.taken with
    | .error fault => .error (offset, fault)
    | .ok token? =>
      match tokensFrom (offset + Text.byteLength m.taken) m.rest with
      | .error fault => .error fault
      | .ok tokens => .ok ((token?.map (offset, ·)).toList ++ tokens)
termination_by cs.length
decreasing_by exact Lexeme.length_rest_lt _h

/-- The tokens of a source with their offsets. -/
def tokenize (source : String) : Except Error (List (Nat × Token)) :=
  match tokensFrom 0 source.toList with
  | .ok tokens => .ok tokens
  | .error (offset, fault) => .error (.parse source offset fault)

end BoundView.Expr
