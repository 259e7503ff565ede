import FieldGuard.Decision.Basic
import FieldGuard.Json.Text

set_option autoImplicit false

namespace FieldGuard

inductive Outcome where
  | flag (allowed : Bool)
  | reason (text : String)
  | value (value : Json)
  | decision (decision : Decision)
  | success (outcome : Outcome)
  | failure (cause : String)

/-- A flag allows or denies; a text, or any other value as text, is a reason to deny. -/
def Outcome.decide (rule : String) : Outcome → Decision
  | .flag true | .value (.bool true) => .allow
  | .flag false | .value (.bool false) => .deny none
  | .reason words | .value (.string words) => .deny (some words)
  | .value other => .deny (some other.compact)
  | .decision answer => answer
  | .success inner => inner.decide rule
  | .failure cause => .error (.failed rule cause)

end FieldGuard
