import FieldGuard.Decision.Outcome
import FieldGuard.Rule.Process

set_option autoImplicit false

namespace FieldGuard

inductive Operand where
  | argument (key : String)
  | parentMember (key : String)
  | contextMember (key : String)
  | args
  | parent
  | context
  | parentType
  | fieldName
  | path
  | target
  | isCancelled
  | literal (value : Json)

def Operand.value (evidence : Evidence) (cancelled : Bool) : Operand → Json
  | .argument key => evidence.args.member key
  | .parentMember key => evidence.parent.member key
  | .contextMember key => evidence.context.member key
  | .args => evidence.args
  | .parent => evidence.parent
  | .context => evidence.context
  | .parentType => .string evidence.site.parentType
  | .fieldName => .string evidence.site.fieldName
  | .path => .array (evidence.site.path.map .string)
  | .target => .string evidence.site.display
  | .isCancelled => .bool cancelled
  | .literal value => value

inductive Conclusion where
  | outcome (result : Outcome)
  | branch (left right : Operand) (equal different : Conclusion)
  | show (operand : Operand)
  | describe
  | panic (message : Option String)

def Conclusion.process (rule : String) (evidence : Evidence) (cancelled : Bool) :
    Conclusion → Process
  | .outcome result => .settle (result.decide rule)
  | .branch left right equal different =>
      if (left.value evidence cancelled).same (right.value evidence cancelled) then
        equal.process rule evidence cancelled
      else different.process rule evidence cancelled
  | .show operand => .settle ((Outcome.value (operand.value evidence cancelled)).decide rule)
  | .describe => .settle (.deny (some evidence.description))
  | .panic message => .panic (message.getD "non-string panic payload")

inductive ScriptedRun where
  | earlyPanic (message : String)
  | run (pauses : List Pause) (conclusion : Conclusion)

structure Script where
  synchronous : Bool
  runs : List ScriptedRun

def afterPauses (conclude : Moment → Process) : List Pause → Moment → Process
  | [], moment => conclude moment
  | pause :: rest, _ => .wait pause (afterPauses conclude rest)

def ScriptedRun.process (rule : String) (synchronous : Bool) (evidence : Evidence) :
    ScriptedRun → Moment → Process
  | .earlyPanic message, _ => .panic message
  | .run pauses conclusion, moment =>
      afterPauses (fun moment => conclusion.process rule evidence moment.cancelled)
        (if synchronous then [] else pauses) moment

def Script.runAt (script : Script) (invocation : Nat) : ScriptedRun :=
  script.runs[invocation]?.getD (script.runs.getLast?.getD (.run [] (.outcome (.flag false))))

def Script.invoke (rule : String) (script : Script) (invocation : Nat) (evidence : Evidence)
    (moment : Moment) : Process :=
  (script.runAt invocation).process rule script.synchronous evidence moment

end FieldGuard
