import BoundView.Json.Printer

/-!
# Values as messages show them
-/

namespace BoundView.Json

/-- A value that stands where another was expected: a scalar, or only the kind of container. -/
inductive Found where
  | null
  | bool (b : Bool)
  | number (n : Number)
  | string (s : String)
  | array
  | object
  deriving DecidableEq

def Found.describe : Found → String
  | .null => "null"
  | .bool b => "boolean " ++ Text.tick (if b then "true" else "false")
  | .number (.int n) => "integer " ++ Text.tick (toString n)
  | .number (.float x) => "floating point " ++ Text.tick (layout.write x)
  | .string s => "string " ++ Text.quote s
  | .array => "sequence"
  | .object => "map"

end BoundView.Json
