import FieldGuard.Proofs.Answers
import FieldGuard.Proofs.Leaves

set_option autoImplicit false

namespace FieldGuard

def Fault.veiled : Fault → Fault
  | .cancelled => .cancelled
  | .failed _ _ | .panicked _ _ => .failed "" ""

def Decision.veiled : Decision → Decision
  | .error fault => .error fault.veiled
  | decision => decision

/-- Behind the veil a panic looks like any other failure. -/
def Process.veiled : Process → Process
  | .settle decision => .settle decision.veiled
  | .panic _ => .settle (.error (.failed "" ""))
  | .wait pause resume => .wait pause fun moment => (resume moment).veiled

def Flight.veiled : Flight → Flight
  | .suspended suspension resume => .suspended suspension fun moment => (resume moment).veiled
  | .settled decision => .settled decision.veiled

def Predicate.veiled : Predicate → Predicate
  | .constant allowed => .constant allowed
  | .custom invoke => .custom fun invocation evidence moment =>
      (invoke invocation evidence moment).veiled

def Question.veiled (question : Question) : Question :=
  { question with predicate := question.predicate.veiled }

def Activity.veiled : Activity → Activity
  | .panicked => .finished
  | activity => activity

def Event.veiled : Event → Event
  | .predicate id rule key activity => .predicate id rule key activity.veiled
  | .decided decision => .decided decision.veiled
  | .faulted field fault => .faulted field fault.veiled
  | event => event

def Record.veiled (record : Record) : Record := { record with event := record.event.veiled }

def Trace.veiled (trace : Trace) : Trace := trace.map Record.veiled

namespace Stage

mutual

def veiled : Stage → Stage
  | .own flight => .own flight.veiled
  | .group operands first => .group (allVeiled operands) (first.map Decision.veiled)
  | .settled decision => .settled decision.veiled
  | .fresh => .fresh
  | .shared key => .shared key

def allVeiled : List Stage → List Stage
  | [] => []
  | stage :: rest => stage.veiled :: allVeiled rest

end

theorem allVeiled_eq_map (stages : List Stage) : allVeiled stages = stages.map veiled := by
  induction stages with
  | nil => rfl
  | cons stage rest ih => simp [allVeiled, ih]

end Stage

namespace Rule

mutual

def veiled : Rule → Rule
  | .leaf id question => .leaf id question.veiled
  | .not id operand => .not id operand.veiled
  | .group id connective operands => .group id connective (allVeiled operands)

def allVeiled : List Rule → List Rule
  | [] => []
  | rule :: rest => rule.veiled :: allVeiled rest

end

theorem allVeiled_eq_map (rules : List Rule) : allVeiled rules = rules.map veiled := by
  induction rules with
  | nil => rfl
  | cons rule rest ih => simp [allVeiled, ih]

end Rule

def Pass.veiled : Pass → Pass
  | .decided decision => .decided decision.veiled
  | .passed operands first => .passed (operands.map Stage.veiled) (first.map Decision.veiled)

def Memo.veiled (memo : Memo) : Memo :=
  { memo with flights := memo.flights.map fun entry => (entry.1, entry.2.veiled) }

def Request.veiled (request : Request) : Request := { request with memo := request.memo.veiled }

def State.veiled (state : State) : State := ⟨state.request.veiled, state.trace.veiled⟩

namespace Decision

variable (decision : Decision)

@[simp] theorem isAllowed_veiled : decision.veiled.isAllowed = decision.isAllowed := by
  cases decision <;> rfl

@[simp] theorem negate_veiled : decision.veiled.negate = decision.negate.veiled := by
  cases decision <;> rfl

end Decision

namespace Connective

variable (connective : Connective)

@[simp] theorem isDecisive_veiled (decision : Decision) :
    connective.isDecisive decision.veiled = connective.isDecisive decision := by
  cases connective <;> simp [isDecisive]

theorem conclude_veiled (precedence : Precedence) (decisions : List Decision)
    (first : Option Decision) :
    connective.conclude precedence (decisions.map Decision.veiled) (first.map Decision.veiled) =
      (connective.conclude precedence decisions first).veiled := by
  -- a group chooses a decision by its place or by its time, and does not look into a fault
  cases connective with
  | and => rfl
  | chain => rfl
  | or =>
    cases precedence with
    | last =>
      simp only [conclude, List.getLast?_map]
      cases decisions.getLast? <;> rfl
    | first =>
      simp only [conclude, List.head?_map]
      cases decisions.head? <;> rfl
  | race =>
    cases first <;> rfl

end Connective

namespace Process

variable (rule : String) (moment : Moment)

theorem continue_veiled (process : Process) :
    process.veiled.continue rule moment =
      (process.continue rule moment).map (List.map Activity.veiled) Flight.veiled := by
  induction process with
  | settle decision => rfl
  | panic message => rfl
  | wait pause resume ih =>
    simp only [Process.veiled, Process.continue]
    cases pause.start moment with
    | some suspension => rfl
    | none =>
      simp only [ih moment]
      rfl

theorem start_veiled (process : Process) :
    process.veiled.start rule moment =
      (process.start rule moment).map (List.map Activity.veiled) Flight.veiled := by
  cases process with
  | settle decision => rfl
  | panic message => rfl
  | wait pause resume =>
    simp only [Process.veiled, Process.start]
    cases pause.start moment with
    | some suspension => rfl
    | none =>
      simp only [continue_veiled rule moment (resume moment)]
      rfl

end Process

theorem Flight.poll_veiled (rule : String) (moment : Moment) (flight : Flight) :
    flight.veiled.poll rule moment =
      (flight.poll rule moment).map (List.map Activity.veiled) Flight.veiled := by
  cases flight with
  | settled decision => rfl
  | suspended suspension resume =>
    simp only [Flight.veiled, Flight.poll]
    split
    · exact Process.continue_veiled rule moment (resume moment)
    · rfl

namespace Memo

variable (memo : Memo) (key : Key) (flight : Flight)

theorem find?_veiled : memo.veiled.find? key = (memo.find? key).map Flight.veiled :=
  lookup_mapped memo.flights Flight.veiled key

theorem insert_veiled : memo.veiled.insert key flight.veiled = (memo.insert key flight).veiled := by
  simp [insert, veiled]

theorem replace_veiled :
    memo.veiled.replace key flight.veiled = (memo.replace key flight).veiled := by
  simp only [replace, veiled, List.map_map, Memo.mk.injEq, and_true]
  refine List.map_congr_left fun entry _ => ?_
  simp only [Function.comp_apply]
  split <;> rfl

theorem size_veiled : memo.veiled.size = memo.size := by
  simp only [size, veiled, List.countP_map]
  refine List.countP_congr fun entry _ => ?_
  obtain ⟨key, _ | decision⟩ := entry <;> rfl

end Memo

namespace State

variable (state : State) (visit : Visit)

theorem calls_veiled (trace : Trace) (id : RuleId) : trace.veiled.calls id = trace.calls id := by
  simp only [Trace.veiled, Trace.calls, List.countP_map]
  refine List.countP_congr fun record _ => ?_
  obtain ⟨time, request, span, event⟩ := record
  cases event with
  | predicate id rule key activity => cases activity <;> rfl
  | _ => rfl

theorem record_veiled (event : Event) :
    state.veiled.record visit event.veiled = (state.record visit event).veiled := by
  simp only [record, veiled, Trace.veiled, List.map_append]
  rfl

theorem recordAll_veiled (events : List Event) :
    state.veiled.recordAll visit (events.map Event.veiled) = (state.recordAll visit events).veiled := by
  simp only [recordAll, veiled, Trace.veiled, List.map_append, List.map_map]
  rfl

theorem withMemo_veiled (memo : Memo) :
    state.veiled.withMemo memo.veiled = (state.withMemo memo).veiled :=
  rfl

end State

namespace Question

variable (question : Question) (id : RuleId) (visit : Visit) (state : State)

theorem activities_veiled (key : Option Key) (found : List Activity) :
    question.veiled.activities id key (found.map Activity.veiled) =
      (question.activities id key found).map Event.veiled := by
  simp only [activities, List.map_map]
  rfl

theorem launch_veiled (key : Option Key) :
    question.veiled.launch id key visit state.veiled =
      (question.launch id key visit state).map Flight.veiled State.veiled := by
  cases predicate : question.predicate with
  | constant allowed =>
    simp only [launch, veiled, predicate, Predicate.veiled]
    cases allowed <;> rfl
  | custom invoke =>
    -- the predicate is called for the same time, on the same evidence and at the same moment
    have process : invoke (state.veiled.trace.calls id) (state.veiled.evidence visit)
        (state.veiled.moment visit) =
          invoke (state.trace.calls id) (state.evidence visit) (state.moment visit) := by
      rw [State.veiled, State.calls_veiled]
      rfl
    have started := Process.start_veiled question.name (state.moment visit)
      (invoke (state.trace.calls id) (state.evidence visit) (state.moment visit))
    simp only [launch, veiled, predicate, Predicate.veiled, process]
    rw [show state.veiled.moment visit = state.moment visit from rfl, started]
    simp only [Prod.map, Prod.mk.injEq, true_and]
    rw [← State.recordAll_veiled, List.map_cons, ← activities_veiled]
    rfl

theorem resume_veiled (key : Option Key) (flight : Flight) :
    question.veiled.resume id key visit flight.veiled state.veiled =
      (question.resume id key visit flight state).map Flight.veiled State.veiled := by
  have polled := flight.poll_veiled question.name (state.moment visit)
  rw [resume_eq, resume_eq, show state.veiled.moment visit = state.moment visit from rfl,
    show question.veiled.name = question.name from rfl, polled]
  simp only [Prod.map, Prod.mk.injEq, true_and]
  rw [activities_veiled, State.recordAll_veiled]

theorem ownStage_veiled (flight : Flight) : ownStage flight.veiled = (ownStage flight).veiled := by
  cases flight <;> rfl

theorem sharedStage_veiled (key : Key) (flight : Flight) :
    sharedStage key flight.veiled = (sharedStage key flight).veiled := by
  cases flight <;> rfl

theorem pollShared_veiled (key : Key) :
    question.veiled.pollShared id visit key state.veiled =
      (question.pollShared id visit key state).map Stage.veiled State.veiled := by
  have found : state.veiled.request.memo.find? key =
      (state.request.memo.find? key).map Flight.veiled := state.request.memo.find?_veiled key
  unfold pollShared
  rw [found]
  cases state.request.memo.find? key with
  | none => rfl
  | some flight =>
    simp only [Option.map_some, resume_veiled, Prod.map, sharedStage_veiled]
    rw [← State.withMemo_veiled, ← Memo.replace_veiled]
    rfl

theorem join_veiled (key : Key) :
    question.veiled.join id visit key state.veiled =
      (question.join id visit key state).map Stage.veiled State.veiled := by
  have found : state.veiled.request.memo.find? key =
      (state.request.memo.find? key).map Flight.veiled := state.request.memo.find?_veiled key
  have looked (hit : Bool) : state.veiled.record visit
      (.lookup key question.veiled.name question.veiled.sharing hit) =
        (state.record visit (.lookup key question.name question.sharing hit)).veiled :=
    state.record_veiled visit (.lookup key question.name question.sharing hit)
  unfold join
  rw [found]
  cases state.request.memo.find? key with
  | none =>
    simp only [Option.map_none, Option.isSome_none, Bool.false_eq_true, if_false, looked,
      launch_veiled, Prod.map, sharedStage_veiled]
    rw [← State.withMemo_veiled, ← Memo.insert_veiled]
    rfl
  | some flight =>
    simp only [Option.map_some, Option.isSome_some, if_true, looked]
    let joined := state.record visit (.lookup key question.name question.sharing true)
    exact question.pollShared_veiled id visit (joined.withMemo joined.request.memo.hit) key

theorem poll_veiled (stage : Stage) :
    question.veiled.poll id visit stage.veiled state.veiled =
      (question.poll id visit stage state).map Stage.veiled State.veiled := by
  have begun : question.veiled.begin id visit state.veiled =
      (question.begin id visit state).map Stage.veiled State.veiled := by
    unfold begin
    rw [show Key.of? question.veiled.sharing id state.veiled.request.id visit.access =
      Key.of? question.sharing id state.request.id visit.access from rfl]
    cases Key.of? question.sharing id state.request.id visit.access with
    | none => simp only [launch_veiled, Prod.map, ownStage_veiled]
    | some key => exact question.join_veiled id visit state key
  unfold poll
  rw [show state.veiled.request.cancelled = state.request.cancelled from rfl]
  split
  · rfl
  · cases stage with
    | fresh => exact begun
    | group operands first => exact begun
    | settled decision => rfl
    | shared key => exact question.pollShared_veiled id visit state key
    | own flight =>
      simp only [Stage.veiled, pollOwn, resume_veiled, Prod.map, ownStage_veiled]

end Question

theorem Stage.decision?_veiled (stage : Stage) :
    stage.veiled.decision? = stage.decision?.map Decision.veiled := by
  cases stage <;> rfl

theorem Stage.negate_veiled (stage : Stage) : stage.veiled.negate = stage.negate.veiled := by
  cases stage <;> simp [Stage.veiled, Stage.negate]

theorem Stage.operands_veiled (count : Nat) (stage : Stage) :
    stage.veiled.operands count =
      (stage.operands count).map (List.map Stage.veiled) (Option.map Decision.veiled) := by
  cases stage <;> simp [Stage.veiled, Stage.operands, allVeiled_eq_map]

theorem Stage.mapM_veiled (stages : List Stage) :
    (stages.map veiled).mapM decision? =
      (stages.mapM decision?).map (List.map Decision.veiled) := by
  cases settled : stages.mapM decision? with
  | some decisions =>
    rw [(mapM_decision?_eq_some _ _).mp settled, Option.map_some, mapM_decision?_eq_some,
      List.map_map, List.map_map]
    rfl
  | none =>
    obtain ⟨stage, member, waiting⟩ := (mapM_decision?_eq_none _).mp settled
    rw [Option.map_none, mapM_decision?_eq_none]
    exact ⟨stage.veiled, List.mem_map_of_mem member, by rw [decision?_veiled, waiting]; rfl⟩

theorem Connective.goesOn_veiled (connective : Connective) (stage : Stage) :
    connective.goesOn stage.veiled = connective.goesOn stage := by
  unfold goesOn
  rw [stage.decision?_veiled]
  cases stage.decision? <;> simp

namespace Pass

variable (pass : Pass)

theorem cons_veiled (stage : Stage) : pass.veiled.cons stage.veiled = (pass.cons stage).veiled := by
  cases pass <;> rfl

theorem stage_veiled (connective : Connective) (precedence : Precedence) :
    pass.veiled.stage connective precedence = (pass.stage connective precedence).veiled := by
  cases pass with
  | decided decision => rfl
  | passed operands first =>
    simp only [veiled, Pass.stage, Stage.mapM_veiled]
    cases operands.mapM Stage.decision? with
    | some decisions => exact congrArg Stage.settled (connective.conclude_veiled precedence _ first)
    | none => simp [Stage.veiled, Stage.allVeiled_eq_map]

end Pass

namespace Rule

variable (visit : Visit)

theorem pollOperands_veiled (connective : Connective) (rules : List Rule)
    (each : ∀ rule ∈ rules, ∀ stage state, rule.veiled.poll visit stage.veiled state.veiled =
      (rule.poll visit stage state).map Stage.veiled State.veiled)
    (stages : List Stage) (first : Option Decision) (state : State) :
    pollOperands visit connective (rules.map veiled) (stages.map Stage.veiled)
        (first.map Decision.veiled) state.veiled =
      (pollOperands visit connective rules stages first state).map Pass.veiled State.veiled := by
  induction rules generalizing stages first state with
  | nil => cases stages <;> simp [pollOperands, Pass.veiled]
  | cons rule rules ih =>
    cases stages with
    | nil => simp [pollOperands, Pass.veiled]
    | cons stage stages =>
      have polled := each rule List.mem_cons_self stage state
      rw [List.map_cons, List.map_cons, pollOperands_cons, pollOperands_cons, polled]
      generalize rule.poll visit stage state = later
      obtain ⟨later, after⟩ := later
      simp only [Prod.map, connective.goesOn_veiled, later.decision?_veiled]
      -- the operands behind go on behind the veil if they do before it
      by_cases onward : connective.goesOn later = true
      · have rest := ih (fun other member => each other (List.mem_cons_of_mem _ member)) stages
          (first.or later.decision?) after
        rw [Option.map_or] at rest
        simp only [onward, if_true, rest, Prod.map, Pass.cons_veiled]
      · simp only [onward, Bool.false_eq_true, if_false]
        cases decided : later.decision? with
        | some decision => rfl
        | none => rfl

theorem poll_veiled (rule : Rule) (stage : Stage) (state : State) :
    rule.veiled.poll visit stage.veiled state.veiled =
      (rule.poll visit stage state).map Stage.veiled State.veiled := by
  induction rule, stage using inductStages generalizing state with
  | settled rule decision =>
    rw [poll_settled]
    exact poll_settled visit _ _ _
  | leaf id question stage unsettled =>
    rw [veiled, poll_leaf visit _ _ _ _ unsettled,
      poll_leaf visit _ _ _ _ (by rw [stage.decision?_veiled, unsettled]; rfl)]
    exact question.poll_veiled id visit state stage
  | not id operand stage unsettled ih =>
    rw [veiled, poll_not visit _ _ _ _ unsettled,
      poll_not visit _ _ _ _ (by rw [stage.decision?_veiled, unsettled]; rfl), ih]
    simp only [Prod.map, Stage.negate_veiled]
  | group id connective operands stage unsettled ih =>
    rw [veiled, poll_group visit _ _ _ _ _ unsettled,
      poll_group visit _ _ _ _ _ (by rw [stage.decision?_veiled, unsettled]; rfl),
      allVeiled_eq_map, List.length_map, stage.operands_veiled]
    have pass := pollOperands_veiled visit connective operands ih
      (stage.operands operands.length).1 (stage.operands operands.length).2 state
    simp only [Prod.map, pass, Pass.stage_veiled]

end Rule

end FieldGuard
