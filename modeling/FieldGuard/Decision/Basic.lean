set_option autoImplicit false

namespace FieldGuard

inductive Fault where
  | failed (rule cause : String)
  | panicked (rule message : String)
  | cancelled
  deriving DecidableEq

inductive Decision where
  | allow
  | deny (reason : Option String)
  | error (fault : Fault)
  deriving DecidableEq

namespace Fault

def message : Fault → String
  | .failed rule cause => "rule '" ++ rule ++ "' failed: " ++ cause
  | .panicked rule message => "rule '" ++ rule ++ "' panicked: " ++ message
  | .cancelled => "evaluation cancelled"

def isCancelled : Fault → Bool
  | .cancelled => true
  | _ => false

def rule? : Fault → Option String
  | .failed rule _ | .panicked rule _ => some rule
  | .cancelled => none

end Fault

namespace Decision

def isAllowed : Decision → Bool
  | .allow => true
  | _ => false

def isDenied : Decision → Bool
  | .deny _ => true
  | _ => false

def isError : Decision → Bool
  | .error _ => true
  | _ => false

def reason? : Decision → Option String
  | .deny reason => reason
  | _ => none

def fault? : Decision → Option Fault
  | .error fault => some fault
  | _ => none

/-- A fault is no answer, so it has no opposite. -/
def negate : Decision → Decision
  | .allow => .deny none
  | .deny _ => .allow
  | .error fault => .error fault

/-- Faults are alike when they read alike. -/
def same : Decision → Decision → Bool
  | .allow, .allow => true
  | .deny a, .deny b => a == b
  | .error a, .error b => a.message == b.message
  | _, _ => false

def display : Decision → String
  | .allow => "allow"
  | .deny none => "deny"
  | .deny (some reason) => "deny (" ++ reason ++ ")"
  | .error fault => "error (" ++ fault.message ++ ")"

end Decision

end FieldGuard
