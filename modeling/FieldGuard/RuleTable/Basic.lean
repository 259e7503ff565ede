import FieldGuard.Registry

set_option autoImplicit false

namespace FieldGuard

inductive Source where
  | field
  | typeFallback
  | fallback
  | defaultPolicy
  deriving DecidableEq

def Source.display : Source → String
  | .field => "field"
  | .typeFallback => "type fallback"
  | .fallback => "fallback"
  | .defaultPolicy => "default policy"

structure RuleTable where
  fields : List ((String × String) × Rule)
  typeFallbacks : List (String × Rule)
  fallback : Option Rule
  defaultPolicy : DefaultPolicy
  defaultRule : Rule

namespace RuleTable

def lookup (table : RuleTable) (parentType field : String) : Rule × Source :=
  match table.fields.lookup (parentType, field) with
  | some rule => (rule, .field)
  | none =>
      match table.typeFallbacks.lookup parentType with
      | some rule => (rule, .typeFallback)
      | none =>
          match table.fallback with
          | some rule => (rule, .fallback)
          | none => (table.defaultRule, .defaultPolicy)

def size (table : RuleTable) : Nat := table.fields.length

def fieldBefore (a b : String × String) : Bool := a.1 < b.1 || (a.1 == b.1 && a.2 ≤ b.2)

def fieldNames (table : RuleTable) : List (String × String) :=
  (table.fields.map Prod.fst).mergeSort fieldBefore

def display (table : RuleTable) : String :=
  "RuleTree(" ++ toString table.size ++ " fields, " ++
    toString table.typeFallbacks.length ++ " type fallbacks, fallback: " ++
    (if table.fallback.isSome then "yes" else "no") ++
    ", default: " ++ table.defaultPolicy.display ++ ")"

def mapDescription (entries : List (String × String)) : String :=
  "\x7b" ++ ", ".intercalate (entries.map fun (key, value) => Text.quoted key ++ ": " ++ value) ++
    "\x7d"

def fieldsOf (table : RuleTable) (parentType : String) : List (String × Rule) :=
  table.fields.filterMap fun ((type, field), rule) =>
    if type = parentType then some (field, rule) else none

def typeDescription (table : RuleTable) (parentType : String) : String × String :=
  (parentType, mapDescription ((table.fieldsOf parentType).map fun (field, rule) =>
    (field, rule.description)))

def description (table : RuleTable) : String :=
  let types := (table.fields.map fun entry => entry.1.1).eraseDups
  "RuleTree \x7b fields: " ++ mapDescription (types.map table.typeDescription) ++
    ", type_fallbacks: " ++
    mapDescription (table.typeFallbacks.map fun (type, rule) => (type, rule.description)) ++
    ", fallback: " ++
    (match table.fallback with
      | some rule => "Some(" ++ rule.description ++ ")"
      | none => "None") ++
    ", default_policy: " ++ table.defaultPolicy.title ++ " \x7d"

end RuleTable

end FieldGuard
