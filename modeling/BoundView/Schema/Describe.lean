import BoundView.Json.Printer
import BoundView.Schema.Basic

/-!
# Summaries of types

A type is described by its structure on one line.  A type that is being described further up is
written as `@` and its pointer, so every description is finite.
-/

namespace BoundView.Schema

variable (s : Schema)

def ruleText : Rule → String
  | .atLeast min => ">= " ++ Decimal.plain.write min
  | .atMost max => "<= " ++ Decimal.plain.write max

def numberText (rules : List Rule) : String :=
  if rules.isEmpty then "number"
  else "number (" ++ String.intercalate ", " (rules.map ruleText) ++ ")"

def elementsText (nullable : Bool) (element : String) : String :=
  (if nullable then "(" ++ element ++ " | null)" else element) ++ "[]"

def fieldText (name : String) (presence : Presence) (type : String) : String :=
  match presence with
  | .required => name ++ ": " ++ type
  | .optional => name ++ "?: " ++ type
  | .defaulted value => name ++ ": " ++ type ++ " = " ++ value.compact

def computedText (name expression : String) : String :=
  name ++ ": computed(" ++ expression ++ ")"

def objectText (parts : List String) : String :=
  if parts.isEmpty then "\x7b\x7d" else "\x7b " ++ String.intercalate "; " parts ++ " \x7d"

/-- Describe a type, where `fresh` are the types that are not being described. -/
def describeFresh (fresh : List TypeId) (id : TypeId) : String :=
  let target := s.resolve id
  if _h : target ∈ fresh then
    match (s.descriptor target).kind with
    | .string => "string"
    | .boolean => "boolean"
    | .any _ => "any"
    | .ref _ => "any"
    | .number rules => numberText rules
    | .array items =>
      elementsText (s.presence items).isOptional (describeFresh (fresh.erase target) items)
    | .object type =>
      -- Stored fields come first, then the computed ones.
      let fields := type.fields.map fun (name, field) =>
        fieldText name (s.presence field) (describeFresh (fresh.erase target) field)
      objectText (fields ++ type.computed.map fun (name, expression) =>
          computedText name expression)
  else "@" ++ s.pointer target
termination_by fresh.length
decreasing_by
  all_goals
    have := List.length_pos_of_mem _h
    rw [List.length_erase_of_mem _h]
    omega

def describe (id : TypeId) : String :=
  s.describeFresh (List.range s.size) id

end BoundView.Schema
