set_option autoImplicit false

namespace FieldGuard

inductive Connective where
  | and
  | or
  | chain
  | race
  deriving DecidableEq

def Connective.name : Connective → String
  | .and => "and"
  | .or => "or"
  | .chain => "chain"
  | .race => "race"

def constantName (allowed : Bool) : String := if allowed then "allow" else "deny"

namespace Policy

inductive Expr where
  | reference (name : String)
  | constant (allowed : Bool)
  | not (operand : Expr)
  | group (connective : Connective) (operands : List Expr)

namespace Expr

mutual

def same : Expr → Expr → Bool
  | .reference a, .reference b => a == b
  | .constant a, .constant b => a == b
  | .not a, .not b => a.same b
  | .group c as, .group d bs => c == d && sameList as bs
  | _, _ => false

def sameList : List Expr → List Expr → Bool
  | [], [] => true
  | a :: as, b :: bs => a.same b && sameList as bs
  | _, _ => false

end

def delimiters : Connective → String × String × String
  | .and => ("(", " AND ", ")")
  | .or => ("(", " OR ", ")")
  | .chain => ("chain(", ", ", ")")
  | .race => ("race(", ", ", ")")

mutual

def display : Expr → String
  | .reference name => name
  | .constant allowed => constantName allowed
  | .not operand => "(NOT " ++ operand.display ++ ")"
  | .group connective operands =>
      let (before, between, after) := delimiters connective
      before ++ between.intercalate (displays operands) ++ after

def displays : List Expr → List String
  | [] => []
  | operand :: rest => operand.display :: displays rest

end

end Expr

end Policy

end FieldGuard
