import BoundView.Text.Printable

/-!
# Quoted text in messages

A quoted text stands between double quotes.  A quote and a backslash are written after a backslash,
and so are the line feed, carriage return, tab and null by a letter or digit; any other character
that is not shown is written by its code point in braces.
-/

namespace BoundView.Text

/-- The lower-case hexadecimal digits of a number, at least `width` of them. -/
def hex (width n : Nat) : String :=
  let digits := Nat.toDigits 16 n
  String.ofList (List.replicate (width - digits.length) '0' ++ digits)

def quoteChar (c : Char) : String :=
  if c = '"' then "\\\""
  else if c = '\\' then "\\\\"
  else if c = '\n' then "\\n"
  else if c = '\r' then "\\r"
  else if c = '\t' then "\\t"
  else if c = '\x00' then "\\0"
  else if isShown c then c.toString
  else "\\u\x7b" ++ hex 1 c.toNat ++ "\x7d"

def quote (s : String) : String :=
  "\"" ++ String.join (s.toList.map quoteChar) ++ "\""

/-- Text between backquotes, the way names stand in messages. -/
def tick (s : String) : String :=
  "`" ++ s ++ "`"

end BoundView.Text
