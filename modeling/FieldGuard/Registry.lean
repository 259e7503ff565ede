import FieldGuard.Rule.Basic

set_option autoImplicit false

namespace FieldGuard

abbrev Registry := List (String × Rule)

namespace Registry

def empty : Registry := []

def register (registry : Registry) (name : String) (rule : Rule) : Registry :=
  registry ++ [(name, rule)]

def get? (registry : Registry) (name : String) : Option Rule := registry.lookup name

def names (registry : Registry) : List String := registry.map Prod.fst

def repeated? : List String → Registry → Option String
  | _, [] => none
  | seen, (name, _) :: rest =>
      if name ∈ seen then some name else repeated? (name :: seen) rest

end Registry

end FieldGuard
