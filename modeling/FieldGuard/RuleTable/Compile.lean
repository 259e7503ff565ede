import FieldGuard.Policy.Parser
import FieldGuard.RuleTable.Build

set_option autoImplicit false

namespace FieldGuard

inductive FileError where
  | notFound
  | isDirectory
  | notText
  deriving DecidableEq

inductive PolicyFile where
  | missing
  | directory
  | bytes (content : ByteArray)

def PolicyFile.text : PolicyFile → Except FileError String
  | .missing => .error .notFound
  | .directory => .error .isDirectory
  | .bytes content =>
      match String.fromUTF8? content with
      | some text => .ok text
      | none => .error .notText

inductive PolicyError where
  | file (error : FileError)
  | parse (complaint : Policy.Complaint)
  | build (error : TableError)

namespace Policy

structure Vocabulary where
  registry : Registry
  allow : Rule
  deny : Rule

mutual

def Expr.lower (vocabulary : Vocabulary) (target : Target) :
    Expr → RuleId → Except TableError (Rule × RuleId)
  | .reference name, fresh =>
      match vocabulary.registry.get? name with
      | some rule => .ok (rule, fresh)
      | none => .error (.undefinedRule name target)
  | .constant true, fresh => .ok (vocabulary.allow, fresh)
  | .constant false, fresh => .ok (vocabulary.deny, fresh)
  | .not operand, fresh => do
      let (rule, fresh) ← operand.lower vocabulary target fresh
      return (.not fresh rule, fresh + 1)
  | .group connective operands, fresh => do
      let (rules, fresh) ← lowerAll vocabulary target operands fresh
      return (.group fresh connective rules, fresh + 1)

def Expr.lowerAll (vocabulary : Vocabulary) (target : Target) :
    List Expr → RuleId → Except TableError (List Rule × RuleId)
  | [], fresh => .ok ([], fresh)
  | expr :: rest, fresh => do
      let (rule, fresh) ← expr.lower vocabulary target fresh
      let (rules, fresh) ← lowerAll vocabulary target rest fresh
      return (rule :: rules, fresh)

end

def compiled? (expr : Expr) (compiled : List (Expr × Rule)) : Option Rule :=
  (compiled.find? fun entry => entry.1.same expr).map Prod.snd

def compileRules (vocabulary : Vocabulary) :
    List (Target × Expr) → List (Expr × Rule) → Registrations → RuleId →
      Except TableError (Registrations × RuleId)
  | [], _, registrations, fresh => .ok (registrations, fresh)
  | (target, expr) :: rest, compiled, registrations, fresh =>
      match compiled? expr compiled with
      | some rule =>
          compileRules vocabulary rest compiled (registrations.add target rule) fresh
      | none => do
          let (rule, fresh) ← expr.lower vocabulary target fresh
          compileRules vocabulary rest (compiled ++ [(expr, rule)])
            (registrations.add target rule) fresh

def singleDefault : List DefaultPolicy → Except TableError (Option DefaultPolicy)
  | [] => .ok none
  | first :: rest =>
      if rest.all (· = first) then .ok (some first) else .error .conflictingDefault

def Document.compile (document : Document) (registry : Registry) (fresh : RuleId) :
    Except TableError (Registrations × RuleId) :=
  match Registry.repeated? [] registry with
  | some name => .error (.duplicateRule name)
  | none => do
      let vocabulary : Vocabulary :=
        { registry, allow := .constant fresh true, deny := .constant (fresh + 1) false }
      let policy ← singleDefault document.defaults
      let registrations :=
        { Registrations.empty with defaultPolicy := policy.getD .standard }
      compileRules vocabulary document.rules [] registrations (fresh + 2)

end Policy

namespace RuleTable

def ofDocument (document : Policy.Document) (registry : Registry) (fresh : RuleId) :
    Except TableError (RuleTable × RuleId) := do
  let (registrations, fresh) ← document.compile registry fresh
  let table ← registrations.build fresh
  return (table, fresh + 1)

def ofPolicy (text : String) (registry : Registry) (fresh : RuleId) :
    Except PolicyError (RuleTable × RuleId) :=
  match Policy.parse text with
  | .error complaint => .error (.parse complaint)
  | .ok document => (ofDocument document registry fresh).mapError .build

def ofFile (file : PolicyFile) (registry : Registry) (fresh : RuleId) :
    Except PolicyError (RuleTable × RuleId) :=
  match file.text with
  | .error error => .error (.file error)
  | .ok text => ofPolicy text registry fresh

end RuleTable

end FieldGuard
