import FieldGuard.Evaluation.Log
import FieldGuard.Proofs.Cancellation
import FieldGuard.Proofs.Meaning

set_option autoImplicit false

namespace FieldGuard

/-- Whether a record tells what becomes of a field: its decision, that its resolver runs, or a line
above the level of debugging. -/
def Record.isRemark (record : Record) : Bool :=
  match record.event with
  | .decided _ | .resolver _ => true
  | _ => record.logFields.any fun line => line.1 = .info || line.1 = .error

def Trace.remarks (trace : Trace) (request : RequestId) : List Event :=
  (trace.filter fun record => record.request = request && record.isRemark).map Record.event

@[simp] theorem Trace.remarks_append (trace records : Trace) (request : RequestId) :
    Trace.remarks (trace ++ records) request = trace.remarks request ++ records.remarks request := by
  simp [Trace.remarks]

/-- The line of a record in the log, if it stands above the level of debugging. -/
def Record.line? (record : Record) : Option (LogLevel × List (String × String)) :=
  record.logFields.filter fun line => line.1 = .info || line.1 = .error

def Trace.lines (trace : Trace) (request : RequestId) : List (LogLevel × List (String × String)) :=
  (trace.filter fun record => record.request = request).filterMap Record.line?

theorem Record.line?_unremarked (record : Record) (unremarked : record.isRemark = false) :
    record.line? = none := by
  obtain ⟨time, request, span, event⟩ := record
  cases event <;> first | rfl | cases unremarked

theorem Trace.lines_eq (trace : Trace) (request : RequestId) :
    trace.lines request =
      (trace.remarks request).filterMap fun event => Record.line? ⟨0, request, none, event⟩ := by
  induction trace with
  | nil => rfl
  | cons record rest ih =>
    have same : Record.line? ⟨0, record.request, none, record.event⟩ = record.line? := rfl
    by_cases own : record.request = request
    · subst own
      cases remarked : record.isRemark with
      | false => simpa [lines, remarks, remarked, record.line?_unremarked remarked] using ih
      | true =>
        cases line : record.line? <;>
          simpa [lines, remarks, remarked, List.filterMap_cons, same, line] using ih
    · simpa [lines, remarks, own] using ih

namespace State

def remarks (state : State) : List Event := state.trace.remarks state.request.id

variable (state : State) (visit : Visit)

theorem recordAll_remarks (events : List Event) :
    (state.recordAll visit events).remarks = state.remarks ++
      events.filter fun event => Record.isRemark ⟨visit.now, state.request.id, visit.span, event⟩ := by
  simp only [remarks, recordAll, Trace.remarks_append, List.append_cancel_left_eq]
  simp [Trace.remarks, List.filter_map, Function.comp_def]

theorem record_remarks (event : Event) :
    (state.record visit event).remarks = state.remarks ++
      if Record.isRemark ⟨visit.now, state.request.id, visit.span, event⟩ then [event] else [] := by
  refine (state.recordAll_remarks visit [event]).trans ?_
  rw [List.filter_cons, List.filter_nil]

end State

namespace Question

variable (question : Question) (id : RuleId) (visit : Visit) (state : State)

theorem activities_remarks (key : Option Key) (found : List Activity) :
    (state.recordAll visit (question.activities id key found)).remarks = state.remarks := by
  rw [State.recordAll_remarks, List.append_right_eq_self, List.filter_eq_nil_iff]
  intro event member
  obtain ⟨activity, _, rfl⟩ := List.mem_map.mp member
  exact Bool.false_ne_true

theorem launch_remarks (key : Option Key) :
    (question.launch id key visit state).2.remarks = state.remarks := by
  rcases question.launch_eq id visit key state with
    ⟨allowed, predicate, launched⟩ | ⟨invoke, invocation, evidence, predicate, started, rfl, launched⟩
  · rw [launched]
  · rw [launched, activities_remarks]
    exact (state.record_remarks visit _).trans (List.append_nil _)

theorem pollShared_remarks (key : Key) :
    (question.pollShared id visit key state).2.remarks = state.remarks := by
  unfold pollShared
  split
  · exact question.activities_remarks id visit state _ _
  · rfl

theorem begin_remarks : (question.begin id visit state).2.remarks = state.remarks := by
  have looked (key : Key) (hit : Bool) :
      (state.record visit (.lookup key question.name question.sharing hit)).remarks = state.remarks :=
    (state.record_remarks visit _).trans (List.append_nil _)
  unfold begin
  split
  · unfold join
    simp only
    split
    · exact (question.pollShared_remarks id visit _ _).trans (looked _ _)
    · exact (question.launch_remarks id visit _ _).trans (looked _ _)
  · exact question.launch_remarks id visit state none

theorem poll_remarks (stage : Stage) :
    (question.poll id visit stage state).2.remarks = state.remarks := by
  unfold poll
  split
  · rfl
  · cases stage with
    | shared key => exact question.pollShared_remarks id visit state key
    | own flight => exact question.activities_remarks id visit state _ _
    | settled decision => rfl
    | fresh => exact question.begin_remarks id visit state
    | group operands first => exact question.begin_remarks id visit state

end Question

theorem Rule.poll_remarks (visit : Visit) (rule : Rule) (stage : Stage) (state : State) :
    (rule.poll visit stage state).2.remarks = state.remarks :=
  (rule.poll_keeps visit (fun later => later.remarks = state.remarks) (fun _ _ _ => True)
    (fun probe _ _ before _ =>
      ⟨(probe.question.poll_remarks probe.id probe.visit probe.state probe.stage).trans before, trivial⟩)
    stage state rfl (fun _ _ => trivial)).1

namespace Guard

variable (guard : Guard) (resolver : Resolver) (visit : Visit) (stage : Stage) (state : State)

def refusal (denial : Denial) : FieldResult :=
  match guard.options.onDeny with
  | .redact => .redacted denial
  | .abort => .denied denial

/-- What becomes of a field with this decision. The value or the error of its resolver is passed on
as it is. -/
def outcome (resolver : Resolver) : Decision → FieldResult
  | .allow =>
      match resolver.result with
      | .ok value => .resolved value
      | .error message => .failed message
  | .deny reason => guard.refusal ⟨.refused, reason.getD guard.options.denialMessage⟩
  | .error .cancelled => .cancelled
  | .error _ => guard.refusal ⟨.failed, guard.options.failureMessage⟩

def remarks (access : FieldAccess) : Decision → List Event
  | .allow => [.resolver access.site.display]
  | .deny reason => [.denied access.site.display (reason.getD guard.options.denialMessage)]
  | .error .cancelled => []
  | .error fault => [.faulted access.site.display fault]

def lines (access : FieldAccess) (request : RequestId) :
    Decision → List (LogLevel × List (String × String))
  | .deny reason =>
      [(.info, [("message", "field access denied"), ("field", access.site.display),
        ("request", request.display), ("message", reason.getD guard.options.denialMessage)])]
  | .error .cancelled | .allow => []
  | .error fault =>
      [(.error, [("message", "rule evaluation failed"), ("field", access.site.display),
        ("request", request.display), ("error", fault.message)])]

def cancels (decision : Decision) : Bool :=
  guard.options.onDeny = .abort && decision.fate = .refused

inductive Delivers (resolver : Resolver) : Decision → Work → Prop
  | done (decision : Decision) :
      Delivers resolver decision (.done (.result (guard.outcome resolver decision)))
  | resolving (deadline : Nat) : Delivers resolver .allow (.resolution (.resolving deadline))

/-- What a request has of a field that got this decision. -/
structure Concludes (access : FieldAccess) (decision : Decision) (before after : State) : Prop where
  remarks : after.remarks = before.remarks ++ .decided decision :: guard.remarks access decision
  cancelled : after.request.cancelled = (before.request.cancelled || guard.cancels decision)

variable {guard} in
theorem Concludes.lines {access : FieldAccess} {decision : Decision} {before after : State}
    (concludes : guard.Concludes access decision before after)
    (same : after.request.id = before.request.id) :
    after.trace.lines before.request.id =
      before.trace.lines before.request.id ++ guard.lines access before.request.id decision := by
  have remarks := concludes.remarks
  rw [State.remarks, State.remarks, same] at remarks
  rw [Trace.lines_eq, Trace.lines_eq, remarks, List.filterMap_append]
  congr 1
  cases decision with
  | allow => rfl
  | deny reason => rfl
  | error fault => cases fault <;> rfl

theorem outcome_allow : guard.outcome resolver .allow = resolver.finish := rfl

@[simp] theorem refuse_result (denial : Denial) :
    (guard.refuse denial state).1 = .returned (guard.refusal denial) := by
  unfold refuse refusal
  cases guard.options.onDeny <;> rfl

@[simp] theorem refuse_remarks (denial : Denial) :
    (guard.refuse denial state).2.remarks = state.remarks := by
  unfold refuse
  cases guard.options.onDeny <;> rfl

@[simp] theorem refuse_cancelled (denial : Denial) :
    (guard.refuse denial state).2.request.cancelled =
      (state.request.cancelled || guard.options.onDeny = .abort) := by
  unfold refuse
  cases guard.options.onDeny <;> simp

theorem await_delivers (deadline now : Nat) :
    guard.Delivers resolver .allow (.ofResolution (resolver.await deadline now)) := by
  unfold Resolver.await
  split
  · exact outcome_allow guard resolver ▸ .done .allow
  · exact .resolving deadline

theorem conclude_delivers (decision : Decision) :
    guard.Delivers resolver decision
      (.ofResolution (guard.conclude resolver visit decision state).1) := by
  unfold conclude
  split
  · exact guard.await_delivers resolver _ _
  · next reason =>
    rw [refuse_result]
    exact .done (.deny reason)
  · exact .done (.error .cancelled)
  · next fault other =>
    rw [refuse_result]
    cases fault with
    | cancelled => exact absurd rfl other
    | failed rule cause => exact .done (.error (.failed rule cause))
    | panicked rule message => exact .done (.error (.panicked rule message))

theorem conclude_remarks (decision : Decision) :
    (guard.conclude resolver visit decision state).2.remarks =
      state.remarks ++ guard.remarks visit.access decision := by
  unfold conclude
  split
  · exact state.record_remarks visit _
  · rw [refuse_remarks]
    exact state.record_remarks visit _
  · exact (List.append_nil _).symm
  · next fault other =>
    rw [refuse_remarks, State.record_remarks]
    cases fault with
    | cancelled => exact absurd rfl other
    | _ => rfl

theorem conclude_cancelled (decision : Decision) :
    (guard.conclude resolver visit decision state).2.request.cancelled =
      (state.request.cancelled || guard.cancels decision) := by
  unfold conclude
  split
  · simp [cancels, Decision.fate]
  · simp [cancels, Decision.fate]
  · simp [cancels, Decision.fate]
  · next fault other =>
    cases fault with
    | cancelled => exact absurd rfl other
    | _ => simp [cancels, Decision.fate]

@[simp] theorem entered_remarks : (guard.entered visit stage state).remarks = state.remarks := by
  unfold entered
  split
  · exact (state.record_remarks visit _).trans (List.append_nil _)
  · rfl

theorem left_settled (decision : Decision) :
    (left visit (.settled decision) state).remarks = state.remarks ++ [.decided decision] :=
  state.record_remarks visit (.decided decision)

end Guard

namespace Guard

inductive Course (guard : Guard) (questions : RuleId → Question) (access : FieldAccess)
    (resolver : Resolver) (before : State) : Work → State → Prop
  | authorizing (work : Work) (state : State) (stage : Stage)
      (reached : (Call.resolve guard access resolver).reached work = some stage)
      (sound : (guard.selected access).1.Sound (fun leaf answer => (questions leaf).MayEnd answer)
        guard.options.precedence stage)
      (live : state.request.cancelled = false) (unremarked : state.remarks = before.remarks) :
      Course guard questions access resolver before work state
  | concluded (work : Work) (state : State) (decision : Decision)
      (yields : (guard.selected access).1.Yields (fun leaf answer => (questions leaf).MayEnd answer)
        guard.options.precedence decision)
      (delivers : guard.Delivers resolver decision work)
      (concludes : guard.Concludes access decision before state) :
      Course guard questions access resolver before work state

variable {guard : Guard} {questions : RuleId → Question} {access : FieldAccess}
  {resolver : Resolver} {before state : State} {work : Work}

theorem Delivers.poll {decision : Decision} (delivers : guard.Delivers resolver decision work)
    (now : Nat) :
    guard.Delivers resolver decision
        ((Call.resolve guard access resolver).poll now work state).1 ∧
      ((Call.resolve guard access resolver).poll now work state).2 = state := by
  cases delivers with
  | done decision => exact ⟨.done decision, rfl⟩
  | resolving deadline => exact ⟨guard.await_delivers resolver deadline now, rfl⟩

theorem Delivers.result {decision : Decision} {answer : Answer}
    (delivers : guard.Delivers resolver decision (.done answer)) :
    answer = .result (guard.outcome resolver decision) := by
  cases delivers
  rfl

theorem Delivers.unasked {decision : Decision} (delivers : guard.Delivers resolver decision work)
    (now : Nat) : (Call.resolve guard access resolver).probes now work state = [] := by
  cases delivers <;> rfl

theorem Course.poll (course : guard.Course questions access resolver before work state)
    (live : before.request.cancelled = false) (now : Nat)
    (heard : state.request.cancelled = false →
      Rule.Heard (fun leaf answer => (questions leaf).MayEnd answer)
        ((Call.resolve guard access resolver).probes now work state)) :
    guard.Course questions access resolver before
      ((Call.resolve guard access resolver).poll now work state).1
      ((Call.resolve guard access resolver).poll now work state).2 := by
  cases course with
  | concluded decision yields delivers concludes =>
    -- only the resolver is left to be polled
    obtain ⟨later, same⟩ := delivers.poll now
    rw [same]
    exact .concluded _ _ decision yields later concludes
  | authorizing stage reached sound running unremarked =>
    have admitted : (stage.isFresh && state.request.cancelled) = false := by simp [running]
    have heard := heard running
    rw [Call.probes_admitted now work state guard access resolver stage reached admitted] at heard
    obtain ⟨later, after, polled, poll⟩ :=
      Call.poll_admitted now work state guard access resolver stage reached admitted
    have sounds := (guard.selected access).1.poll_sound
      (Guard.authorizing (guard.visit now access)) rfl stage
      (guard.entered (Guard.authorizing (guard.visit now access)) stage state) sound heard
    have remarked := (guard.selected access).1.poll_remarks (Guard.authorizing (guard.visit now access))
      stage (guard.entered (Guard.authorizing (guard.visit now access)) stage state)
    have still := (guard.selected access).1.poll_cancelled_eq
      (Guard.authorizing (guard.visit now access)) stage
      (guard.entered (Guard.authorizing (guard.visit now access)) stage state)
    rw [polled] at sounds remarked still
    rw [entered_remarks, unremarked] at remarked
    rw [entered_request, running] at still
    rcases poll with ⟨decision, rfl, concluded⟩ | ⟨_, authorizing⟩
    · rw [concluded]
      refine .concluded _ _ decision ((Rule.sound_settled _ _ _ _).mp sounds)
        (guard.conclude_delivers resolver _ _ decision) ⟨?_, ?_⟩
      · rw [Prod.map_snd, id, conclude_remarks, left_settled, remarked, List.append_assoc]
        rfl
      · rw [Prod.map_snd, id, conclude_cancelled, left_request, still, live]
    · rw [authorizing]
      exact .authorizing _ _ _ rfl sounds still remarked

theorem Course.congr {after : State} (course : guard.Course questions access resolver before work state)
    (remarks : after.remarks = state.remarks)
    (cancelled : after.request.cancelled = state.request.cancelled) :
    guard.Course questions access resolver before work after := by
  cases course with
  | authorizing stage reached sound live unremarked =>
    exact .authorizing work after stage reached sound (cancelled.trans live)
      (remarks.trans unremarked)
  | concluded decision yields delivers concludes =>
    exact .concluded work after decision yields delivers
      ⟨remarks.trans concludes.remarks, cancelled.trans concludes.cancelled⟩

theorem Course.done {answer : Answer}
    (course : guard.Course questions access resolver before (.done answer) state) :
    ∃ decision,
      (guard.selected access).1.Yields (fun leaf answer => (questions leaf).MayEnd answer)
        guard.options.precedence decision ∧
      answer = .result (guard.outcome resolver decision) ∧
      guard.Concludes access decision before state := by
  cases course with
  | authorizing stage reached sound live unremarked => cases reached
  | concluded decision yields delivers concludes =>
    exact ⟨decision, yields, delivers.result, concludes⟩

def serves (guard : Guard) (fields : Nat → FieldAccess × Resolver) (caller : Nat) : Call :=
  .resolve guard (fields caller).1 (fields caller).2

end Guard

theorem Call.probes_running (now : Nat) (call : Call) (work : Work) (state : State)
    (running : state.request.cancelled = false) (probe : Probe)
    (member : probe ∈ call.probes now work state) : probe.state.request.cancelled = false := by
  unfold probes at member
  split at member
  · cases member
  · next stage _ =>
    split at member
    · cases member
    · have entered : (call.entered now stage state).request.cancelled = false := by
        cases call <;> simpa [Call.entered] using running
      exact ((Rule.poll_linked _ _ _ _).preserves (·.request.cancelled = false)
        (fun other inside => (other.polled_of_waiting
          (Rule.probes_waiting _ _ _ _ other inside)).keeps.cancelled.trans) entered).1 probe member

structure Turn where
  caller : Nat
  moves : List Move

def Move.isOf (caller : Nat) : Move → Bool
  | .poll other _ => other = caller
  | .elsewhere _ => true
  | .drop _ | .cancel => false

namespace Traffic

/-- Calls made one after another: each is new, and is done before the next begins. Nobody else
cancels the request. -/
inductive Series (calls : Nat → Call) : Traffic → List Turn → Prop
  | nil (traffic : Traffic) : Series calls traffic []
  | cons (traffic : Traffic) (turn : Turn) (rest : List Turn)
      (fresh : traffic.works turn.caller = .fresh)
      (own : ∀ move ∈ turn.moves, move.isOf turn.caller = true)
      (done : ∃ answer, (run calls traffic turn.moves).works turn.caller = .done answer)
      (later : Series calls (run calls traffic turn.moves) rest) :
      Series calls traffic (turn :: rest)

def serial (calls : Nat → Call) : Traffic → List Turn → Bool
  | _, [] => true
  | traffic, turn :: rest =>
      (traffic.works turn.caller matches .fresh) && turn.moves.all (Move.isOf turn.caller) &&
        ((run calls traffic turn.moves).works turn.caller matches .done _) &&
        serial calls (run calls traffic turn.moves) rest

theorem series_of_serial {calls : Nat → Call} {traffic : Traffic} {turns : List Turn}
    (holds : serial calls traffic turns = true) : Series calls traffic turns := by
  induction turns generalizing traffic with
  | nil => exact .nil traffic
  | cons turn rest ih =>
    simp only [serial, Bool.and_eq_true, List.all_eq_true] at holds
    obtain ⟨⟨⟨fresh, own⟩, done⟩, later⟩ := holds
    refine .cons traffic turn rest ?_ own ?_ (ih later)
    · cases work : traffic.works turn.caller <;> simp_all
    · cases work : (run calls traffic turn.moves).works turn.caller <;> simp_all

def after (calls : Nat → Call) (traffic : Traffic) (turns : List Turn) : Traffic :=
  run calls traffic (turns.flatMap Turn.moves)

variable {calls : Nat → Call} {traffic : Traffic}

theorem after_append (earlier turns : List Turn) :
    after calls traffic (earlier ++ turns) = after calls (after calls traffic earlier) turns := by
  rw [after, List.flatMap_append, run_append]
  rfl

theorem after_cons (turn : Turn) (rest : List Turn) :
    after calls traffic (turn :: rest) = after calls (run calls traffic turn.moves) rest :=
  run_append calls traffic turn.moves _

theorem Series.append {earlier turns : List Turn} (series : Series calls traffic (earlier ++ turns)) :
    Series calls (after calls traffic earlier) turns := by
  induction earlier generalizing traffic with
  | nil => exact series
  | cons turn rest ih =>
    cases series with
    | cons _ _ _ fresh own done later =>
      rw [after_cons]
      exact ih later

theorem joinedBy_remarks (records : Trace) (state : State) :
    (joinedBy records state).remarks = state.remarks := by
  simp only [State.remarks, joinedBy, Trace.remarks_append, List.append_right_eq_self]
  simp only [Trace.remarks, List.filter_filter, List.map_eq_nil_iff, List.filter_eq_nil_iff]
  intro record _
  by_cases own : record.request = state.request.id <;> simp [own]

section

variable {guard : Guard} {fields : Nat → FieldAccess × Resolver} {questions : RuleId → Question}
  {request : RequestId} {before : State}

def Led (guard : Guard) (fields : Nat → FieldAccess × Resolver) (questions : RuleId → Question)
    (request : RequestId) (traffic : Traffic) : Prop :=
  Sound (guard.serves fields)
    (fun state => state.request.id = request ∧ Question.AllLead questions state.request.memo)
    (fun access id question stage => question = questions id ∧
      question.Stands id request access stage ∧
      ∀ flight, stage = .own flight → question.Leads flight) traffic

variable (named : ∀ caller, (guard.serves fields caller).rule.Named questions)

include named

theorem step_course {caller : Nat} (led : Led guard fields questions request traffic)
    (live : before.request.cancelled = false)
    (course : guard.Course questions (fields caller).1 (fields caller).2 before
      (traffic.works caller) traffic.state) (move : Move) (own : move.isOf caller = true) :
    guard.Course questions (fields caller).1 (fields caller).2 before
      ((step (guard.serves fields) traffic move).works caller)
      (step (guard.serves fields) traffic move).state := by
  cases move with
  | drop other => cases own
  | cancel => cases own
  | elsewhere records => exact course.congr (joinedBy_remarks records traffic.state) rfl
  | poll other now =>
    obtain rfl : other = caller := by simpa [Move.isOf] using own
    have asked := (led.poll (flights_invariant questions named request) other now).2
    simp only [step, Function.update_self]
    refine course.poll live now fun running probe member decision reply => ?_
    refine (asked (other, probe) (List.mem_map_of_mem member)).mayEnd ?_ decision reply
    exact Call.probes_running now _ _ _ running probe member

theorem run_course {caller : Nat} (led : Led guard fields questions request traffic)
    (live : before.request.cancelled = false)
    (course : guard.Course questions (fields caller).1 (fields caller).2 before
      (traffic.works caller) traffic.state) (moves : List Move)
    (own : ∀ move ∈ moves, move.isOf caller = true) :
    guard.Course questions (fields caller).1 (fields caller).2 before
      ((run (guard.serves fields) traffic moves).works caller)
      (run (guard.serves fields) traffic moves).state := by
  induction moves generalizing traffic with
  | nil => exact course
  | cons move rest ih =>
    refine ih (led.step (flights_invariant questions named request) move).1 ?_
      fun other member => own other (List.mem_cons_of_mem _ member)
    exact step_course named led live course move (own move List.mem_cons_self)

theorem turn_concludes {turn : Turn} (led : Led guard fields questions request traffic)
    (live : traffic.state.request.cancelled = false) (fresh : traffic.works turn.caller = .fresh)
    (own : ∀ move ∈ turn.moves, move.isOf turn.caller = true)
    (done : ∃ answer,
      (run (guard.serves fields) traffic turn.moves).works turn.caller = .done answer) :
    ∃ decision,
      (guard.selected (fields turn.caller).1).1.Yields
        (fun leaf answer => (questions leaf).MayEnd answer) guard.options.precedence decision ∧
      (run (guard.serves fields) traffic turn.moves).works turn.caller =
        .done (.result (guard.outcome (fields turn.caller).2 decision)) ∧
      guard.Concludes (fields turn.caller).1 decision traffic.state
        (run (guard.serves fields) traffic turn.moves).state := by
  have course := run_course named led live
    (.authorizing _ _ .fresh (by rw [fresh]; rfl) (Rule.sound_fresh _ _ _) live rfl) turn.moves own
  obtain ⟨answer, done⟩ := done
  rw [done] at course
  obtain ⟨decision, yields, rfl, concludes⟩ := course.done
  exact ⟨decision, yields, done, concludes⟩

end

end Traffic

end FieldGuard
