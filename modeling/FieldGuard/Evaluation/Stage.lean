import FieldGuard.Evaluation.Memo

set_option autoImplicit false

namespace FieldGuard

/-- An operator's stages are those of its operands; a negation is as far as its operand. -/
inductive Stage where
  | fresh
  | shared (key : Key)
  | own (flight : Flight)
  | group (operands : List Stage) (first : Option Decision)
  | settled (decision : Decision)

namespace Stage

def isFresh : Stage → Bool
  | .fresh => true
  | _ => false

def decision? : Stage → Option Decision
  | .settled decision => some decision
  | _ => none

def negate : Stage → Stage
  | .settled decision => .settled decision.negate
  | stage => stage

def operands (count : Nat) : Stage → List Stage × Option Decision
  | .group operands first => (operands, first)
  | _ => (List.replicate count .fresh, none)

mutual

def deadlines (memo : Memo) : Stage → List Nat
  | .shared key => ((memo.find? key).bind Flight.deadline?).toList
  | .own flight => flight.deadline?.toList
  | .group operands _ => allDeadlines memo operands
  | .fresh | .settled _ => []

def allDeadlines (memo : Memo) : List Stage → List Nat
  | [] => []
  | stage :: rest => stage.deadlines memo ++ allDeadlines memo rest

end

end Stage

namespace Connective

def isDecisive : Connective → Decision → Bool
  | .and, decision | .chain, decision => !decision.isAllowed
  | .or, decision | .race, decision => decision.isAllowed

def conclude (precedence : Precedence) (decisions : List Decision) (first : Option Decision) :
    Connective → Decision
  | .and | .chain => .allow
  | .or =>
      match precedence with
      | .last => decisions.getLast?.getD (.deny none)
      | .first => decisions.head?.getD (.deny none)
  | .race => first.getD (.deny none)

end Connective

end FieldGuard
