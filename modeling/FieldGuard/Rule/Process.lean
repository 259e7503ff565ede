import FieldGuard.Decision.Basic
import FieldGuard.Json.Text

set_option autoImplicit false

namespace FieldGuard

structure FieldSite where
  parentType : String
  fieldName : String
  path : List String

def FieldSite.display (site : FieldSite) : String := site.parentType ++ "." ++ site.fieldName

structure FieldAccess where
  site : FieldSite
  parent : Json
  args : Json

structure Evidence where
  site : FieldSite
  parent : Json
  args : Json
  context : Json

def FieldSite.description (site : FieldSite) : String :=
  "FieldInfo \x7b parent_type: " ++ Text.quoted site.parentType ++
    ", field_name: " ++ Text.quoted site.fieldName ++
    ", path: [" ++ ", ".intercalate (site.path.map Text.quoted) ++ "] \x7d"

def Evidence.description (evidence : Evidence) : String :=
  "RuleInput \x7b info: " ++ evidence.site.description ++
    ", parent: " ++ evidence.parent.description ++
    ", args: " ++ evidence.args.description ++ ", .. \x7d"

structure Moment where
  now : Nat
  cancelled : Bool

inductive Pause where
  | sleep (duration : Nat)
  | forever
  | cancellation
  | yield
  deriving DecidableEq

inductive Process where
  | settle (decision : Decision)
  | panic (message : String)
  | wait (pause : Pause) (resume : Moment → Process)

end FieldGuard
