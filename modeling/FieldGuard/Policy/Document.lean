import FieldGuard.Options.Basic
import FieldGuard.Policy.Expr

set_option autoImplicit false

namespace FieldGuard.Policy

inductive Target where
  | field (parentType field : String)
  | type (parentType : String)
  | fallback
  deriving DecidableEq

def Target.display : Target → String
  | .field parentType name => parentType ++ "." ++ name
  | .type parentType => parentType ++ ".*"
  | .fallback => "fallback"

inductive Statement where
  | default (policy : DefaultPolicy)
  | rule (target : Target) (expr : Expr)

structure Document where
  defaults : List DefaultPolicy
  rules : List (Target × Expr)

def Statement.default? : Statement → Option DefaultPolicy
  | .default policy => some policy
  | .rule _ _ => none

def Statement.rule? : Statement → Option (Target × Expr)
  | .default _ => none
  | .rule target expr => some (target, expr)

def Document.ofStatements (statements : List Statement) : Document :=
  { defaults := statements.filterMap Statement.default?
    rules := statements.filterMap Statement.rule? }

end FieldGuard.Policy
