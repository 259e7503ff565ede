import FieldGuard.Evaluation.Poll
import FieldGuard.Guard.Denial

set_option autoImplicit false

namespace FieldGuard

structure Guard where
  table : RuleTable
  options : Options

structure Resolver where
  delay : Nat
  result : Except String Json

inductive Resolution where
  | authorizing (stage : Stage)
  | resolving (deadline : Nat)
  | returned (result : FieldResult)

def Resolver.finish (resolver : Resolver) : FieldResult :=
  match resolver.result with
  | .ok value => .resolved value
  | .error message => .failed message

def Resolver.await (resolver : Resolver) (deadline now : Nat) : Resolution :=
  if deadline ≤ now then .returned resolver.finish else .resolving deadline

namespace Guard

def description (guard : Guard) : String :=
  "Shield \x7b tree: " ++ guard.table.display ++
    ", options: " ++ guard.options.description ++ " \x7d"

def pollCheck (guard : Guard) (visit : Visit) (stage : Stage) (state : State) : Stage × State :=
  let (rule, source) := guard.table.lookup visit.access.site.parentType visit.access.site.fieldName
  let state :=
    if stage.isFresh then state.record visit (.selected source rule.display) else state
  let (stage, state) := rule.poll visit stage state
  match stage with
  | .settled decision => (.settled decision, state.record visit (.decided decision))
  | waiting => (waiting, state)

/-- Refuses a field, and under `abort` cancels its request. -/
def refuse (guard : Guard) (denial : Denial) (state : State) : Resolution × State :=
  match guard.options.onDeny with
  | .redact => (.returned (.redacted denial), state)
  | .abort =>
      (.returned (.denied denial),
        { state with request := { state.request with cancelled := true } })

def conclude (guard : Guard) (resolver : Resolver) (visit : Visit) (decision : Decision)
    (state : State) : Resolution × State :=
  let field := visit.access.site.display
  match decision with
  | .allow =>
      (resolver.await (visit.now + resolver.delay) visit.now, state.record visit (.resolver field))
  | .deny reason =>
      let message := reason.getD guard.options.denialMessage
      guard.refuse ⟨.refused, message⟩ (state.record visit (.denied field message))
  | .error .cancelled => (.returned .cancelled, state)
  | .error fault =>
      guard.refuse ⟨.failed, guard.options.failureMessage⟩
        (state.record visit (.faulted field fault))

/-- Polls the resolution of a field. Cancellation is looked for when it begins, and by the leaves of
its rule; a resolver is not interrupted. -/
def pollResolve (guard : Guard) (resolver : Resolver) (visit : Visit) (resolution : Resolution)
    (state : State) : Resolution × State :=
  match resolution with
  | .authorizing stage =>
      if stage.isFresh && state.request.cancelled then (.returned .cancelled, state)
      else
        let authorizing := { visit with span := some visit.access.site }
        let (stage, state) := guard.pollCheck authorizing stage state
        match stage with
        | .settled decision => guard.conclude resolver visit decision state
        | waiting => (.authorizing waiting, state)
  | .resolving deadline => (resolver.await deadline visit.now, state)
  | .returned result => (.returned result, state)

def visit (guard : Guard) (now : Nat) (access : FieldAccess) : Visit :=
  { now, access, precedence := guard.options.precedence, span := none }

end Guard

end FieldGuard
