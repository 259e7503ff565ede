import FieldGuard.Options.Basic
import FieldGuard.Policy.Expr
import FieldGuard.Rule.Process

set_option autoImplicit false

namespace FieldGuard

abbrev RuleId := Nat

inductive Predicate where
  | constant (allowed : Bool)
  /-- How the predicate behaves when it was invoked so many times before. -/
  | custom (invoke : Nat → Evidence → Moment → Process)

structure Question where
  name : String
  sharing : Sharing
  predicate : Predicate

inductive Rule where
  | leaf (id : RuleId) (question : Question)
  | not (id : RuleId) (operand : Rule)
  | group (id : RuleId) (connective : Connective) (operands : List Rule)

namespace Rule

def constant (id : RuleId) (allowed : Bool) : Rule :=
  .leaf id ⟨constantName allowed, .none, .constant allowed⟩

def id : Rule → RuleId
  | .leaf id _ | .not id _ | .group id _ _ => id

def name : Rule → String
  | .leaf _ question => question.name
  | .not _ _ => "not"
  | .group _ connective _ => connective.name

def sharing? : Rule → Option Sharing
  | .leaf _ question => some question.sharing
  | _ => none

def isLeaf : Rule → Bool
  | .leaf _ _ => true
  | _ => false

mutual

def display : Rule → String
  | .leaf _ question => question.name
  | .not _ operand => "not(" ++ operand.display ++ ")"
  | .group _ connective operands =>
      connective.name ++ "(" ++ ", ".intercalate (displays operands) ++ ")"

def displays : List Rule → List String
  | [] => []
  | rule :: rest => rule.display :: displays rest

end

def description (rule : Rule) : String :=
  "Rule(#" ++ toString rule.id ++ " " ++ rule.display ++ ")"

end Rule

end FieldGuard
