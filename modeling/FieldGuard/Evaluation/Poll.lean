import FieldGuard.Evaluation.Stage

/-!
Polling the evaluation of a rule: every predicate that can go on does so, and a group settles as
soon as its settled operands allow. Operands are polled in declared order; `chain` begins an operand
when the one before it has allowed, the others begin all at once.
-/

set_option autoImplicit false

namespace FieldGuard

structure Request where
  id : RequestId
  context : Json
  cancelled : Bool
  memo : Memo

namespace Request

def start (id : RequestId) (context : Json) : Request :=
  { id, context, cancelled := false, memo := .empty }

def description (request : Request) : String :=
  "RequestScope \x7b id: RequestId(" ++ toString request.id ++
    "), cache: " ++ request.memo.description request.id ++
    ", cancelled: " ++ toString request.cancelled ++ ", .. \x7d"

end Request

structure State where
  request : Request
  trace : Trace

structure Visit where
  now : Nat
  access : FieldAccess
  precedence : Precedence
  span : Option FieldSite

namespace State

def moment (state : State) (visit : Visit) : Moment := ⟨visit.now, state.request.cancelled⟩

def record (state : State) (visit : Visit) (event : Event) : State :=
  { state with trace := state.trace ++ [⟨visit.now, state.request.id, visit.span, event⟩] }

def recordAll (state : State) (visit : Visit) (events : List Event) : State :=
  { state with
    trace := state.trace ++ events.map fun event =>
      ⟨visit.now, state.request.id, visit.span, event⟩ }

def withMemo (state : State) (memo : Memo) : State :=
  { state with request := { state.request with memo } }

def evidence (state : State) (visit : Visit) : Evidence :=
  { site := visit.access.site
    parent := visit.access.parent
    args := visit.access.args
    context := state.request.context }

end State

namespace Question

def activities (question : Question) (id : RuleId) (key : Option Key) (found : List Activity) :
    List Event :=
  found.map (.predicate id question.name key)

def launch (question : Question) (id : RuleId) (key : Option Key) (visit : Visit) (state : State) :
    Flight × State :=
  match question.predicate with
  | .constant allowed => (.settled (if allowed then .allow else .deny none), state)
  | .custom invoke =>
      let moment := state.moment visit
      let process := invoke (state.trace.calls id) (state.evidence visit) moment
      let (found, flight) := process.start question.name moment
      (flight, state.recordAll visit
        (.invoking question.name visit.access.site.display :: question.activities id key found))

def resume (question : Question) (id : RuleId) (key : Option Key) (visit : Visit) (flight : Flight)
    (state : State) : Flight × State :=
  let (found, flight) := flight.poll question.name (state.moment visit)
  (flight, state.recordAll visit (question.activities id key found))

def ownStage : Flight → Stage
  | .settled decision => .settled decision
  | flight => .own flight

def sharedStage (key : Key) : Flight → Stage
  | .settled decision => .settled decision
  | _ => .shared key

def pollOwn (question : Question) (id : RuleId) (visit : Visit) (flight : Flight) (state : State) :
    Stage × State :=
  let (flight, state) := question.resume id none visit flight state
  (ownStage flight, state)

def pollShared (question : Question) (id : RuleId) (visit : Visit) (key : Key) (state : State) :
    Stage × State :=
  match state.request.memo.find? key with
  | some flight =>
      let (flight, state) := question.resume id (some key) visit flight state
      (sharedStage key flight, state.withMemo (state.request.memo.replace key flight))
  | none => (.shared key, state)

def join (question : Question) (id : RuleId) (visit : Visit) (key : Key) (state : State) :
    Stage × State :=
  let hit := (state.request.memo.find? key).isSome
  let state := state.record visit (.lookup key question.name question.sharing hit)
  if hit then
    question.pollShared id visit key (state.withMemo state.request.memo.hit)
  else
    let (flight, state) := question.launch id (some key) visit state
    (sharedStage key flight, state.withMemo (state.request.memo.insert key flight))

def begin (question : Question) (id : RuleId) (visit : Visit) (state : State) : Stage × State :=
  match Key.of? question.sharing id state.request.id visit.access with
  | some key => question.join id visit key state
  | none =>
      let (flight, state) := question.launch id none visit state
      (ownStage flight, state)

/-- A cancelled request gets no answer from a leaf, and its memo stays as it is. -/
def poll (question : Question) (id : RuleId) (visit : Visit) (stage : Stage) (state : State) :
    Stage × State :=
  if state.request.cancelled then (.settled (.error .cancelled), state)
  else
    match stage with
    | .shared key => question.pollShared id visit key state
    | .own flight => question.pollOwn id visit flight state
    | .settled decision => (.settled decision, state)
    | .fresh | .group _ _ => question.begin id visit state

end Question

/-- What a pass over the operands of a group comes to. -/
inductive Pass where
  | decided (decision : Decision)
  | passed (operands : List Stage) (first : Option Decision)

namespace Pass

def cons (stage : Stage) : Pass → Pass
  | .decided decision => .decided decision
  | .passed operands first => .passed (stage :: operands) first

def stage (connective : Connective) (precedence : Precedence) : Pass → Stage
  | .decided decision => .settled decision
  | .passed operands first =>
      match operands.mapM Stage.decision? with
      | some decisions => .settled (connective.conclude precedence decisions first)
      | none => .group operands first

end Pass

namespace Rule

mutual

def poll (visit : Visit) : Rule → Stage → State → Stage × State
  | _, .settled decision, state => (.settled decision, state)
  | .leaf id question, stage, state => question.poll id visit stage state
  | .not _ operand, stage, state =>
      let (stage, state) := operand.poll visit stage state
      (stage.negate, state)
  | .group _ connective operands, stage, state =>
      let (stages, first) := stage.operands operands.length
      let (pass, state) := pollOperands visit connective operands stages first state
      (pass.stage connective visit.precedence, state)

def pollOperands (visit : Visit) (connective : Connective) :
    List Rule → List Stage → Option Decision → State → Pass × State
  | rule :: rules, stage :: stages, first, state =>
      let (stage, state) := rule.poll visit stage state
      match stage with
      | .settled decision =>
          if connective.isDecisive decision then (.decided decision, state)
          else
            let first := some (first.getD decision)
            let (pass, state) := pollOperands visit connective rules stages first state
            (pass.cons (.settled decision), state)
      | waiting =>
          if connective = .chain then (.passed (waiting :: stages) first, state)
          else
            let (pass, state) := pollOperands visit connective rules stages first state
            (pass.cons waiting, state)
  | [], _, first, state | _ :: _, [], first, state => (.passed [] first, state)

end

end Rule

end FieldGuard
