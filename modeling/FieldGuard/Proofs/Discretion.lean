import FieldGuard.Proofs.Returns
import FieldGuard.Proofs.Veiling

set_option autoImplicit false

namespace FieldGuard

def RuleTable.veiled (table : RuleTable) : RuleTable := table.mapRules Rule.veiled

def Guard.veiled (guard : Guard) : Guard := { guard with table := guard.table.veiled }

def Resolution.veiled : Resolution → Resolution
  | .authorizing stage => .authorizing stage.veiled
  | resolution => resolution

def Answer.veiled : Answer → Answer
  | .decision reached => .decision reached.veiled
  | other => other

def Work.veiled : Work → Work
  | .resolution reached => .resolution reached.veiled
  | .evaluation reached => .evaluation reached.veiled
  | .done answer => .done answer.veiled
  | work => work

/-- The same call, before a guard whose leaves fail without saying how. -/
def Call.veiled : Call → Call
  | .evaluate rule precedence access => .evaluate rule.veiled precedence access
  | .check guard access => .check guard.veiled access
  | .resolve guard access resolver => .resolve guard.veiled access resolver

def Move.veiled : Move → Move
  | .elsewhere records => .elsewhere records.veiled
  | move => move

def Traffic.veiled (traffic : Traffic) : Traffic :=
  ⟨traffic.state.veiled, fun caller => (traffic.works caller).veiled⟩

namespace Rule

theorem displays_eq_map (rules : List Rule) : displays rules = rules.map display := by
  induction rules with
  | nil => rfl
  | cons rule rest ih => simp [displays, ih]

theorem display_veiled (rule : Rule) : rule.veiled.display = rule.display := by
  induction rule with
  | leaf id question => rfl
  | not id operand ih => rw [veiled, display, display, ih]
  | group id connective operands ih =>
    have each : operands.map (display ∘ veiled) = operands.map display := List.map_congr_left ih
    rw [veiled, display, display, displays_eq_map, displays_eq_map, allVeiled_eq_map, List.map_map,
      each]

end Rule

theorem Stage.isFresh_veiled (stage : Stage) : stage.veiled.isFresh = stage.isFresh := by
  cases stage <;> rfl

namespace Guard

variable (guard : Guard) (resolver : Resolver) (visit : Visit) (stage : Stage) (state : State)

theorem selected_veiled (access : FieldAccess) :
    guard.veiled.selected access = (guard.selected access).map Rule.veiled id :=
  guard.table.lookup_mapRules Rule.veiled _ _

theorem entered_veiled :
    guard.veiled.entered visit stage.veiled state.veiled =
      (guard.entered visit stage state).veiled := by
  unfold entered
  rw [stage.isFresh_veiled, guard.selected_veiled]
  split
  · simp only [Prod.map, Rule.display_veiled]
    exact state.record_veiled visit (.selected _ _)
  · rfl

theorem left_veiled : left visit stage.veiled state.veiled = (left visit stage state).veiled := by
  unfold left
  rw [stage.decision?_veiled]
  cases stage.decision? with
  | none => rfl
  | some decision => exact state.record_veiled visit (.decided decision)

theorem pollCheck_veiled :
    guard.veiled.pollCheck visit stage.veiled state.veiled =
      (guard.pollCheck visit stage state).map Stage.veiled State.veiled := by
  rw [pollCheck_eq, pollCheck_eq, selected_veiled, entered_veiled]
  simp only [Prod.map, Rule.poll_veiled, left_veiled]

theorem refuse_veiled (denial : Denial) :
    guard.veiled.refuse denial state.veiled =
      (guard.refuse denial state).map Resolution.veiled State.veiled := by
  unfold refuse
  rw [show guard.veiled.options = guard.options from rfl]
  cases guard.options.onDeny <;> rfl

theorem conclude_veiled (decision : Decision) :
    guard.veiled.conclude resolver visit decision.veiled state.veiled =
      (guard.conclude resolver visit decision state).map Resolution.veiled State.veiled := by
  have awaited (deadline now : Nat) :
      (resolver.await deadline now).veiled = resolver.await deadline now := by
    unfold Resolver.await
    split <;> rfl
  have refused (denial : Denial) (event : Event) :
      guard.veiled.refuse denial (state.veiled.record visit event.veiled) =
        (guard.refuse denial (state.record visit event)).map Resolution.veiled State.veiled := by
    rw [state.record_veiled, refuse_veiled]
  cases decision with
  | allow =>
    simp only [Decision.veiled, conclude, Prod.map, awaited, Prod.mk.injEq, true_and]
    exact state.record_veiled visit (.resolver _)
  | deny reason => exact refused _ (.denied _ _)
  | error fault =>
    cases fault with
    | cancelled => rfl
    | failed rule cause => exact refused _ (.faulted _ (.failed rule cause))
    | panicked rule message => exact refused _ (.faulted _ (.panicked rule message))

theorem pollResolve_veiled (resolution : Resolution) :
    guard.veiled.pollResolve resolver visit resolution.veiled state.veiled =
      (guard.pollResolve resolver visit resolution state).map Resolution.veiled State.veiled := by
  cases resolution with
  | returned result => rfl
  | resolving deadline =>
    simp only [Resolution.veiled, pollResolve, Resolver.await]
    split <;> rfl
  | authorizing stage =>
    have checked := guard.pollCheck_veiled (authorizing visit) stage state
    have admission : (stage.veiled.isFresh && state.veiled.request.cancelled) =
        (stage.isFresh && state.request.cancelled) := by
      rw [stage.isFresh_veiled]
      rfl
    cases refused : (stage.isFresh && state.request.cancelled) with
    | true =>
      rw [guard.pollResolve_refused resolver visit stage state refused]
      exact guard.veiled.pollResolve_refused resolver visit _ _ (admission.trans refused)
    | false =>
      have admitted := admission.trans refused
      rcases (guard.pollCheck (authorizing visit) stage state).1.settled_or_waiting with
        ⟨decision, decided⟩ | waiting
      · rw [guard.pollResolve_decided resolver visit stage state refused decision decided,
          ← conclude_veiled, Resolution.veiled,
          guard.veiled.pollResolve_decided resolver visit _ _ admitted decision.veiled
            (by rw [checked, Prod.map, decided]; rfl), checked]
        rfl
      · rw [guard.pollResolve_waiting resolver visit stage state refused waiting, Resolution.veiled,
          guard.veiled.pollResolve_waiting resolver visit _ _ admitted
            (by rw [checked, Prod.map, Stage.decision?_veiled, waiting]; rfl), checked]
        rfl

end Guard

namespace Call

theorem poll_veiled (now : Nat) (call : Call) (work : Work) (state : State) :
    call.veiled.poll now work.veiled state.veiled =
      (call.poll now work state).map Work.veiled State.veiled := by
  rcases work.done_or_waiting with ⟨answer, rfl⟩ | waiting
  · rw [poll_done, show (Work.done answer).veiled = .done answer.veiled from rfl, poll_done]
    rfl
  have veiled : ∀ answer, work.veiled ≠ .done answer := by
    intro answer
    cases work with
    | done answer => exact absurd rfl (waiting answer)
    | _ => simp [Work.veiled]
  have stage : work.veiled.stage = work.stage.veiled := by cases work <;> rfl
  have resolution : work.veiled.resolution? = work.resolution?.veiled := by cases work <;> rfl
  have evaluated (stage : Stage) : Work.ofStage stage.veiled = (Work.ofStage stage).veiled := by
    cases stage <;> rfl
  cases call with
  | evaluate rule precedence access =>
    rw [poll_evaluate now work state rule precedence access waiting, Call.veiled,
      poll_evaluate now work.veiled state.veiled _ precedence access veiled, stage]
    simp only [Rule.poll_veiled, Prod.map, evaluated]
  | check guard access =>
    have checked := guard.pollCheck_veiled (guard.visit now access) work.stage state
    rw [poll_check now work state guard access waiting, Call.veiled,
      poll_check now work.veiled state.veiled _ access veiled, stage,
      show guard.veiled.visit now access = guard.visit now access from rfl, checked]
    simp only [Prod.map, evaluated]
  | resolve guard access resolver =>
    have resolved := guard.pollResolve_veiled resolver (guard.visit now access) state work.resolution?
    have concluded (resolution : Resolution) :
        Work.ofResolution resolution.veiled = (Work.ofResolution resolution).veiled := by
      cases resolution <;> rfl
    rw [poll_resolve now work state guard access resolver waiting, Call.veiled,
      poll_resolve now work.veiled state.veiled _ access resolver veiled, resolution,
      show guard.veiled.visit now access = guard.visit now access from rfl, resolved]
    simp only [Prod.map, concluded]

end Call

def Event.isInvocation : Event → Bool
  | .predicate _ _ _ .called | .resolver _ => true
  | _ => false

def Trace.invocations (trace : Trace) : Trace := trace.filter (·.event.isInvocation)

theorem Trace.invocations_veiled (trace : Trace) :
    trace.veiled.invocations = trace.invocations := by
  induction trace with
  | nil => rfl
  | cons record rest ih =>
    obtain ⟨time, request, span, event⟩ := record
    simp only [veiled, invocations] at ih ⊢
    rw [List.map_cons, List.filter_cons, List.filter_cons, ih]
    cases event with
    | predicate id rule key activity => cases activity <;> rfl
    | _ => rfl

namespace Traffic

variable (calls : Nat → Call)

theorem opened_veiled (id : RequestId) (context : Json) (history : Trace) :
    (opened id context history).veiled = opened id context history.veiled := by
  simp only [veiled, opened, State.veiled, Trace.veiled, List.filter_map]
  rfl

theorem step_veiled (traffic : Traffic) (move : Move) :
    step (fun caller => (calls caller).veiled) traffic.veiled move.veiled =
      (step calls traffic move).veiled := by
  have updated (caller : Nat) (work : Work) :
      Function.update traffic.veiled.works caller work.veiled =
        fun other => (Function.update traffic.works caller work other).veiled := by
    funext other
    by_cases same : other = caller
    · subst same
      simp
    · simp [same, veiled]
  cases move with
  | cancel => rfl
  | elsewhere records =>
    simp only [step, Move.veiled, veiled, joinedBy, State.veiled, Trace.veiled, List.map_append,
      List.filter_map]
    rfl
  | drop caller =>
    have left (work : Work) : dropped work.veiled = (dropped work).veiled := by cases work <;> rfl
    have work : dropped (traffic.veiled.works caller) = (dropped (traffic.works caller)).veiled :=
      left _
    simp only [step, Move.veiled, work, updated]
    rfl
  | poll caller now =>
    have polled : (calls caller).veiled.poll now (traffic.veiled.works caller)
        traffic.veiled.state =
          ((calls caller).poll now (traffic.works caller) traffic.state).map Work.veiled
            State.veiled :=
      (calls caller).poll_veiled now _ _
    simp only [step, Move.veiled, polled, Prod.map, updated]
    rfl

theorem run_veiled (traffic : Traffic) (moves : List Move) :
    run (fun caller => (calls caller).veiled) traffic.veiled (moves.map Move.veiled) =
      (run calls traffic moves).veiled := by
  induction moves generalizing traffic with
  | nil => rfl
  | cons move rest ih =>
    have stepped := step_veiled calls traffic move
    have later := ih (step calls traffic move)
    rw [← stepped] at later
    exact later

theorem veiled_result (work : Work) (result : FieldResult) :
    work.veiled = .done (.result result) ↔ work = .done (.result result) := by
  rcases work with _ | resolution | stage | deadline | (result | decision | _)  <;>
    simp [Work.veiled, Answer.veiled]

variable {calls} {others : Nat → Call}

/-- Two requests whose calls differ at most in how their leaves fail, after histories and among
other requests that differ in no more: every field comes to the same result, the same predicates and
resolvers are called in the same order, and the caches and the cancellation are the same. -/
theorem faults_undisclosed (alike : ∀ caller, (calls caller).veiled = (others caller).veiled)
    (id : RequestId) (context : Json) (history past : Trace) (before : history.veiled = past.veiled)
    (moves turns : List Move) (schedule : moves.map Move.veiled = turns.map Move.veiled) :
    let first := run calls (opened id context history) moves
    let second := run others (opened id context past) turns
    (∀ caller result, first.works caller = .done (.result result) ↔
        second.works caller = .done (.result result)) ∧
      first.state.trace.invocations = second.state.trace.invocations ∧
      first.state.request.memo.hits = second.state.request.memo.hits ∧
      first.state.request.memo.misses = second.state.request.memo.misses ∧
      first.state.request.memo.size = second.state.request.memo.size ∧
      first.state.request.cancelled = second.state.request.cancelled := by
  intro first second
  have same : first.veiled = second.veiled := by
    rw [← run_veiled, ← run_veiled, opened_veiled, opened_veiled, before, schedule, funext alike]
  -- all that clients and counters show is the same behind the veil
  have memo : first.state.request.memo.veiled = second.state.request.memo.veiled :=
    congrArg (fun traffic => traffic.state.request.memo) same
  have hits : first.state.request.memo.veiled.hits = second.state.request.memo.veiled.hits := by
    rw [memo]
  have misses : first.state.request.memo.veiled.misses =
      second.state.request.memo.veiled.misses := by
    rw [memo]
  have cancelled : first.veiled.state.request.cancelled = second.veiled.state.request.cancelled := by
    rw [same]
  refine ⟨fun caller result => ?_, ?_, hits, misses, ?_, cancelled⟩
  · have works : (first.works caller).veiled = (second.works caller).veiled :=
      congrArg (fun traffic => traffic.works caller) same
    rw [← veiled_result, works, veiled_result]
  · have trace : first.state.trace.veiled = second.state.trace.veiled :=
      congrArg (fun traffic => traffic.state.trace) same
    rw [← Trace.invocations_veiled, trace, Trace.invocations_veiled]
  · rw [← Memo.size_veiled, memo, Memo.size_veiled]

theorem faults_undisclosed_panic :
    let calls := fun process => (fun _ => .resolve
      { table := ⟨[], [], some (.not 2 (.leaf 1 ⟨"owner", .contextual, .custom fun _ _ _ => process⟩)),
          .deny, .constant 0 false⟩
        options := ⟨.abort, .last, "not authorized", "internal error"⟩ }
      (.bare "Query" "report") ⟨0, .ok .null⟩ : Nat → Call)
    let failing := calls (.settle (.error (.failed "owner" "no row 17")))
    let panicking := calls (.panic "index out of bounds")
    (∀ caller, (failing caller).veiled = (panicking caller).veiled) ∧
      (run panicking (opened 1 .null []) [.poll 0 0]).works 0 =
        .done (.result (.denied ⟨.failed, "internal error"⟩)) := by
  -- The leaf of one request fails and that of the other panics, below a negation; both fields end
  -- with the same denial.
  intro calls failing panicking
  have alike : ∀ caller, (failing caller).veiled = (panicking caller).veiled := fun _ => rfl
  have undisclosed := faults_undisclosed alike 1 .null [] [] rfl [.poll 0 0] [.poll 0 0] rfl
  exact ⟨alike, (undisclosed.1 0 _).mp rfl⟩

end Traffic

end FieldGuard
