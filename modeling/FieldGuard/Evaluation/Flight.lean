import FieldGuard.Evaluation.Trace

set_option autoImplicit false

namespace FieldGuard

inductive Suspension where
  | asleep (deadline : Nat)
  | forever
  | cancellation
  | yielded
  deriving DecidableEq

inductive Flight where
  | suspended (suspension : Suspension) (resume : Moment → Process)
  | settled (decision : Decision)

def Suspension.isOver (moment : Moment) : Suspension → Bool
  | .asleep deadline => deadline ≤ moment.now
  | .forever => false
  | .cancellation => moment.cancelled
  | .yielded => true

def Pause.start (moment : Moment) : Pause → Option Suspension
  | .sleep duration => if duration = 0 then none else some (.asleep (moment.now + duration))
  | .forever => some .forever
  | .cancellation => if moment.cancelled then none else some .cancellation
  | .yield => some .yielded

/-- Runs a process that goes on after a pause; every further pause is a step of its own. -/
def Process.continue (rule : String) (moment : Moment) : Process → List Activity × Flight
  | .settle decision => ([.finished], .settled decision)
  | .panic message => ([.panicked], .settled (.error (.panicked rule message)))
  | .wait pause resume =>
      match pause.start moment with
      | some suspension => ([.stepped], .suspended suspension resume)
      | none =>
          let (activities, flight) := (resume moment).continue rule moment
          (.stepped :: activities, flight)

def Process.start (rule : String) (moment : Moment) : Process → List Activity × Flight
  | .wait pause resume =>
      match pause.start moment with
      | some suspension => ([.called], .suspended suspension resume)
      | none =>
          let (activities, flight) := (resume moment).continue rule moment
          (.called :: activities, flight)
  | process =>
      let (activities, flight) := process.continue rule moment
      (.called :: activities, flight)

def Flight.poll (rule : String) (moment : Moment) : Flight → List Activity × Flight
  | .suspended suspension resume =>
      if suspension.isOver moment then (resume moment).continue rule moment
      else ([], .suspended suspension resume)
  | .settled decision => ([], .settled decision)

def Flight.decision? : Flight → Option Decision
  | .settled decision => some decision
  | .suspended _ _ => none

def Flight.deadline? : Flight → Option Nat
  | .suspended (.asleep deadline) _ => some deadline
  | _ => none

end FieldGuard
