import FieldGuard.Json.Basic

set_option autoImplicit false

namespace FieldGuard

inductive DenialCause where
  | refused
  | failed
  deriving DecidableEq

structure Denial where
  cause : DenialCause
  message : String
  deriving DecidableEq

def DenialCause.code : DenialCause → String
  | .refused => "FORBIDDEN"
  | .failed => "INTERNAL_SERVER_ERROR"

def Denial.display (denial : Denial) : String := denial.message

inductive FieldResult where
  | resolved (value : Json)
  | redacted (denial : Denial)
  | denied (denial : Denial)
  | cancelled
  | failed (message : String)

namespace FieldResult

def errorMessage? : FieldResult → Option String
  | .resolved _ | .redacted _ => none
  | .denied denial => some denial.message
  | .cancelled => some "request cancelled"
  | .failed message => some message

end FieldResult

end FieldGuard
