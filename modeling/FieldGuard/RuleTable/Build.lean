import FieldGuard.Policy.Document
import FieldGuard.RuleTable.Basic
import FieldGuard.Text.Blank

set_option autoImplicit false

namespace FieldGuard

inductive NameKind where
  | type
  | field
  deriving DecidableEq

inductive TableError where
  | conflictingField (parentType field : String)
  | conflictingTypeFallback (parentType : String)
  | conflictingFallback
  | conflictingDefault
  | emptyName (kind : NameKind) (target : Policy.Target)
  | undefinedRule (name : String) (target : Policy.Target)
  | duplicateRule (name : String)
  deriving DecidableEq

namespace TableError

def kindName : NameKind → String
  | .type => "type"
  | .field => "field"

def message : TableError → String
  | .conflictingField parentType field =>
      "conflicting rules registered for '" ++ parentType ++ "." ++ field ++ "'"
  | .conflictingTypeFallback parentType =>
      "conflicting fallback rules registered for type '" ++ parentType ++ "'"
  | .conflictingFallback => "conflicting global fallback rules"
  | .conflictingDefault => "conflicting default policies"
  | .emptyName kind target =>
      "empty " ++ kindName kind ++ " name in rule target '" ++ target.display ++ "'"
  | .undefinedRule name target =>
      "undefined rule '" ++ name ++ "' referenced by '" ++ target.display ++ "'"
  | .duplicateRule name => "duplicate rule name '" ++ name ++ "' in registry"

end TableError

structure Registrations where
  fields : List ((String × String) × Rule)
  typeFallbacks : List (String × Rule)
  fallbacks : List Rule
  defaultPolicy : DefaultPolicy

namespace Registrations

def empty : Registrations :=
  { fields := [], typeFallbacks := [], fallbacks := [], defaultPolicy := .standard }

def add (registrations : Registrations) (target : Policy.Target) (rule : Rule) : Registrations :=
  match target with
  | .field parentType field =>
      { registrations with fields := registrations.fields ++ [((parentType, field), rule)] }
  | .type parentType =>
      { registrations with typeFallbacks := registrations.typeFallbacks ++ [(parentType, rule)] }
  | .fallback => { registrations with fallbacks := registrations.fallbacks ++ [rule] }

def checkField (key : String × String) : Except TableError Unit :=
  if Text.blank key.1 then .error (.emptyName .type (.field key.1 key.2))
  else if Text.blank key.2 then .error (.emptyName .field (.field key.1 key.2))
  else .ok ()

def checkType (parentType : String) : Except TableError Unit :=
  if Text.blank parentType then .error (.emptyName .type (.type parentType)) else .ok ()

/-- The first entry of each key, if every key is accepted and none has a second rule. -/
def collect {κ : Type} [DecidableEq κ] (check : κ → Except TableError Unit)
    (conflict : κ → TableError) :
    List (κ × Rule) → List (κ × Rule) → Except TableError (List (κ × Rule))
  | found, [] => .ok found
  | found, (key, rule) :: rest => do
      check key
      match found.lookup key with
      | none => collect check conflict (found ++ [(key, rule)]) rest
      | some earlier =>
          if earlier.id = rule.id then collect check conflict found rest
          else .error (conflict key)

def single : Option Rule → List Rule → Except TableError (Option Rule)
  | found, [] => .ok found
  | none, rule :: rest => single (some rule) rest
  | some earlier, rule :: rest =>
      if earlier.id = rule.id then single (some earlier) rest else .error .conflictingFallback

def build (registrations : Registrations) (fresh : RuleId) : Except TableError RuleTable := do
  let fields ← collect checkField (fun key => .conflictingField key.1 key.2) []
    registrations.fields
  let typeFallbacks ← collect checkType .conflictingTypeFallback [] registrations.typeFallbacks
  let fallback ← single none registrations.fallbacks
  return {
    fields
    typeFallbacks
    fallback
    defaultPolicy := registrations.defaultPolicy
    defaultRule := .constant fresh registrations.defaultPolicy.allows }

end Registrations

end FieldGuard
