import FieldGuard.RuleTable.Basic

set_option autoImplicit false

namespace FieldGuard

abbrev RequestId := Nat

def RequestId.display (id : RequestId) : String := "req-" ++ toString id

structure Key where
  request : RequestId
  rule : RuleId
  input : Option (List Char)
  deriving DecidableEq

inductive Activity where
  | called
  | stepped
  | finished
  | panicked
  deriving DecidableEq

inductive Event where
  | selected (source : Source) (rule : String)
  | lookup (key : Key) (rule : String) (sharing : Sharing) (hit : Bool)
  | invoking (rule field : String)
  | predicate (id : RuleId) (rule : String) (key : Option Key) (activity : Activity)
  | decided (decision : Decision)
  | denied (field message : String)
  | faulted (field : String) (fault : Fault)
  | resolver (field : String)

structure Record where
  time : Nat
  request : RequestId
  span : Option FieldSite
  event : Event

abbrev Trace := List Record

def Trace.calls (trace : Trace) (id : RuleId) : Nat :=
  trace.countP fun record =>
    match record.event with
    | .predicate caller _ _ .called => caller = id
    | _ => false

end FieldGuard
