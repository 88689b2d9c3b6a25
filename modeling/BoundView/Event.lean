import BoundView.Expr.Error

/-!
# What is logged

Some failures do not stop what is going on: a value reads as absent, a handler does nothing.  Each
leaves an event in the log.
-/

namespace BoundView

/-- Why an evaluation or an action failed, in words. -/
abbrev Cause := String

inductive Event where
  | unknownKind (pointer kind : String)
  | strayComputed (pointer expression : String)
  | computedTooDeep (field : String)
  | computedUnparsed (field : String) (cause : Cause)
  | computedFailed (field : String) (cause : Cause)
  | readFailed (expression : String) (cause : Cause)
  | handlerFailed (expression : String) (cause : Cause)
  deriving DecidableEq, Repr

namespace Event

def level : Event → String
  | .readFailed _ _ => "ERROR"
  | .handlerFailed _ _ => "ERROR"
  | _ => "WARN"

def message : Event → String
  | .unknownKind _ _ => "unknown property kind; compiling to a no-op type"
  | .strayComputed _ _ => "computed property outside an object; treating as `any`"
  | .computedTooDeep _ => "computed field nesting too deep; reading as undefined"
  | .computedUnparsed _ _ => "computed field failed to parse"
  | .computedFailed _ _ => "computed field failed to evaluate"
  | .readFailed _ _ => "read binding failed"
  | .handlerFailed _ _ => "event handler failed"

def fields : Event → List (String × String)
  | .unknownKind pointer kind => [("pointer", pointer), ("kind", kind)]
  | .strayComputed pointer expression => [("pointer", pointer), ("expression", expression)]
  | .computedTooDeep field => [("field", field)]
  | .computedUnparsed field cause => [("field", field), ("error", cause)]
  | .computedFailed field cause => [("field", field), ("error", cause)]
  | .readFailed expression cause => [("expression", expression), ("error", cause)]
  | .handlerFailed expression cause => [("expression", expression), ("error", cause)]

end Event

end BoundView
