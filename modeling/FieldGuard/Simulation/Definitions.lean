import FieldGuard.RuleTable.Compile
import FieldGuard.Simulation.Script

set_option autoImplicit false

namespace FieldGuard

inductive RuleTerm where
  | defined (name : String)
  | constant (allowed : Bool)
  | leaf (name : String) (sharing : Sharing) (script : Script)
  | not (operand : RuleTerm)
  | group (connective : Connective) (operands : List RuleTerm)

structure Definitions where
  rules : List (String × Rule)
  fresh : RuleId

namespace Definitions

def empty : Definitions := { rules := [], fresh := 1 }

def find? (definitions : Definitions) (name : String) : Option Rule :=
  definitions.rules.reverse.lookup name

end Definitions

namespace RuleTerm

mutual

def make (definitions : Definitions) : RuleTerm → RuleId → Option (Rule × RuleId)
  | .defined name, fresh => do return (← definitions.find? name, fresh)
  | .constant allowed, fresh => some (.constant fresh allowed, fresh + 1)
  | .leaf name sharing script, fresh =>
      some (.leaf fresh ⟨name, sharing, .custom (script.invoke name)⟩, fresh + 1)
  | .not operand, fresh => do
      let (rule, fresh) ← operand.make definitions fresh
      return (.not fresh rule, fresh + 1)
  | .group connective operands, fresh => do
      let (rules, fresh) ← makeAll definitions operands fresh
      return (.group fresh connective rules, fresh + 1)

def makeAll (definitions : Definitions) : List RuleTerm → RuleId → Option (List Rule × RuleId)
  | [], fresh => some ([], fresh)
  | term :: rest, fresh => do
      let (rule, fresh) ← term.make definitions fresh
      let (rules, fresh) ← makeAll definitions rest fresh
      return (rule :: rules, fresh)

end

end RuleTerm

namespace Definitions

def make (definitions : Definitions) (term : RuleTerm) : Option (Rule × Definitions) := do
  let (rule, fresh) ← term.make definitions definitions.fresh
  return (rule, { definitions with fresh })

def define (definitions : Definitions) (name : String) (term : RuleTerm) : Option Definitions := do
  let (rule, definitions) ← definitions.make term
  return { definitions with rules := definitions.rules ++ [(name, rule)] }

def defineAll : List (String × RuleTerm) → Definitions → Option Definitions
  | [], definitions => some definitions
  | (name, term) :: rest, definitions => do defineAll rest (← definitions.define name term)

def placeOf? (definitions : Definitions) (rule : Rule) : Option Nat :=
  definitions.rules.findIdx? fun entry => entry.2.id = rule.id

def placesOf (definitions : Definitions) (rules : List Rule) : List Nat :=
  let identities := (definitions.rules.map fun entry => entry.2.id) ++ rules.map Rule.id
  rules.map fun rule => identities.idxOf rule.id

end Definitions

structure RegistryEntry where
  name : Option String
  rule : RuleTerm

def Registry.make : List RegistryEntry → Registry → Definitions → Option (Registry × Definitions)
  | [], registry, definitions => some (registry, definitions)
  | entry :: rest, registry, definitions => do
      let (rule, definitions) ← definitions.make entry.rule
      Registry.make rest (registry.register (entry.name.getD rule.name) rule) definitions

def Definitions.registry (definitions : Definitions) :
    Option (List RegistryEntry) → Option (Registry × Definitions)
  | some entries => Registry.make entries Registry.empty definitions
  | none => some (definitions.rules, definitions)

inductive RegistrationStep where
  | entry (target : Policy.Target) (rule : RuleTerm)
  | default (policy : DefaultPolicy)

def RegistrationStep.ofType (parentType : String) (rules : List (Option String × RuleTerm)) :
    List RegistrationStep :=
  rules.map fun (field, rule) =>
    match field with
    | some field => .entry (.field parentType field) rule
    | none => .entry (.type parentType) rule

def Registrations.make : List RegistrationStep → Registrations → Definitions →
    Option (Registrations × Definitions)
  | [], registrations, definitions => some (registrations, definitions)
  | .entry target term :: rest, registrations, definitions => do
      let (rule, definitions) ← definitions.make term
      Registrations.make rest (registrations.add target rule) definitions
  | .default policy :: rest, registrations, definitions =>
      Registrations.make rest { registrations with defaultPolicy := policy } definitions

inductive TableSource where
  | policy (text : String)
  | file (file : PolicyFile)
  | steps (steps : List RegistrationStep)

def TableSource.make (source : TableSource) (registry : Registry) (definitions : Definitions) :
    Option (Except PolicyError (RuleTable × Definitions)) :=
  let counted (made : RuleTable × RuleId) := (made.1, { definitions with fresh := made.2 })
  match source with
  | .policy text => some ((RuleTable.ofPolicy text registry definitions.fresh).map counted)
  | .file found => some ((RuleTable.ofFile found registry definitions.fresh).map counted)
  | .steps all => do
      let (registrations, definitions) ← Registrations.make all .empty definitions
      match registrations.build definitions.fresh with
      | .error error => return .error (.build error)
      | .ok table => return .ok (table, { definitions with fresh := definitions.fresh + 1 })

end FieldGuard
