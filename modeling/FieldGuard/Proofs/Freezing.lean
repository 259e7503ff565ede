import FieldGuard.Proofs.Cancellation
import FieldGuard.Proofs.SingleFlight

set_option autoImplicit false

namespace FieldGuard

def Event.concernsLeaf : Event → Bool
  | .lookup _ _ _ _ | .invoking _ _ | .predicate _ _ _ _ => true
  | _ => false

/-- A change that leaves the request as it is, and in which no leaf of the request has a part. -/
structure State.Rests (before after : State) : Prop where
  request : after.request = before.request
  trace : ∃ records, after.trace = before.trace ++ records ∧
    ∀ record ∈ records, record.request = before.request.id → record.event.concernsLeaf = false

namespace State

theorem rests_refl (state : State) : state.Rests state :=
  ⟨rfl, [], (List.append_nil _).symm, by simp⟩

theorem Rests.trans {before middle after : State} (first : before.Rests middle)
    (second : middle.Rests after) : before.Rests after where
  request := second.request.trans first.request
  trace := by
    obtain ⟨records, same, still⟩ := first.trace
    obtain ⟨others, later, further⟩ := second.trace
    refine ⟨records ++ others, by rw [later, same, List.append_assoc], ?_⟩
    intro record member own
    rcases List.mem_append.mp member with here | there
    · exact still record here own
    · exact further record there (by rw [first.request, own])

theorem rests_record (state : State) (visit : Visit) (event : Event)
    (silent : event.concernsLeaf = false) : state.Rests (state.record visit event) := by
  refine ⟨rfl, _, rfl, ?_⟩
  intro record member _
  obtain rfl := List.mem_singleton.mp member
  exact silent

end State

namespace Guard

variable (guard : Guard) (resolver : Resolver) (visit : Visit) (stage : Stage) (state : State)

theorem entered_rests : state.Rests (guard.entered visit stage state) := by
  unfold entered
  split
  · exact state.rests_record visit _ rfl
  · exact state.rests_refl

theorem left_rests : state.Rests (left visit stage state) := by
  unfold left
  split
  · exact state.rests_record visit _ rfl
  · exact state.rests_refl

variable (cancelled : state.request.cancelled = true)

include cancelled

theorem refuse_rests (denial : Denial) (event : Event) (silent : event.concernsLeaf = false) :
    state.Rests (guard.refuse denial (state.record visit event)).2 := by
  unfold refuse
  split
  · exact state.rests_record visit event silent
  · refine ⟨?_, (state.rests_record visit event silent).trace⟩
    -- the request that is cancelled here is cancelled already
    rw [State.record_request, ← cancelled]

theorem conclude_rests (decision : Decision) :
    state.Rests (guard.conclude resolver visit decision state).2 := by
  unfold conclude
  split
  · exact state.rests_record visit _ rfl
  · exact guard.refuse_rests visit state cancelled _ _ rfl
  · exact state.rests_refl
  · exact guard.refuse_rests visit state cancelled _ _ rfl

theorem pollCheck_frozen :
    (∃ decision, (guard.pollCheck visit stage state).1 = .settled decision) ∧
      state.Rests (guard.pollCheck visit stage state).2 := by
  have entered : (guard.entered visit stage state).request.cancelled = true := by
    simpa using cancelled
  obtain ⟨decision, -, polled⟩ :=
    (guard.selected visit.access).1.poll_interrupted visit stage _ entered
  rw [pollCheck_eq, polled]
  exact ⟨⟨decision, rfl⟩,
    (guard.entered_rests visit stage state).trans (left_rests visit (.settled decision) _)⟩

theorem pollResolve_frozen :
    (∀ later, (guard.pollResolve resolver visit (.authorizing stage) state).1 ≠ .authorizing later) ∧
      state.Rests (guard.pollResolve resolver visit (.authorizing stage) state).2 := by
  cases refused : (stage.isFresh && state.request.cancelled) with
  | true =>
    rw [guard.pollResolve_refused resolver visit stage state refused]
    exact ⟨by simp, state.rests_refl⟩
  | false =>
    obtain ⟨⟨decision, decided⟩, rests⟩ :=
      guard.pollCheck_frozen (authorizing visit) stage state cancelled
    rw [guard.pollResolve_decided resolver visit stage state refused decision decided]
    refine ⟨(guard.conclude_calm resolver visit _ decision).2, rests.trans ?_⟩
    exact guard.conclude_rests resolver visit _ (rests.request ▸ cancelled) decision

end Guard

theorem Call.poll_frozen (now : Nat) (call : Call) (work : Work) (state : State)
    (cancelled : state.request.cancelled = true) :
    call.reached (call.poll now work state).1 = none ∧ state.Rests (call.poll now work state).2 := by
  rcases work.done_or_waiting with ⟨answer, rfl⟩ | waiting
  · rw [poll_done, reached_done]
    exact ⟨rfl, state.rests_refl⟩
  -- the leaves of the rule fail in this poll, so it decides
  cases call with
  | evaluate rule precedence access =>
    rw [poll_evaluate now work state rule precedence access waiting]
    obtain ⟨decision, -, polled⟩ :=
      rule.poll_interrupted ⟨now, access, precedence, none⟩ work.stage state cancelled
    simp only [polled]
    exact ⟨rfl, state.rests_refl⟩
  | check guard access =>
    rw [poll_check now work state guard access waiting]
    obtain ⟨⟨decision, decided⟩, rests⟩ :=
      guard.pollCheck_frozen (guard.visit now access) work.stage state cancelled
    simp only [decided]
    exact ⟨rfl, rests⟩
  | resolve guard access resolver =>
    rw [poll_resolve now work state guard access resolver waiting]
    cases work.resolution? with
    | authorizing stage =>
      obtain ⟨settled, rests⟩ :=
        guard.pollResolve_frozen resolver (guard.visit now access) stage state cancelled
      exact ⟨reached_ofResolution guard access resolver _ settled, rests⟩
    | resolving deadline =>
      refine ⟨reached_ofResolution guard access resolver _ ?_, state.rests_refl⟩
      intro stage
      simp only [Guard.pollResolve, Resolver.await]
      split <;> simp
    | returned result => exact ⟨rfl, state.rests_refl⟩

namespace Process

variable (rule : String) (moment : Moment) (decision : Decision)
  (chosen : ∀ name message, decision ≠ .error (.panicked name message))

include chosen

theorem continue_finished (process : Process)
    (settled : (process.continue rule moment).2 = .settled decision) :
    [.finished] <:+ (process.continue rule moment).1 := by
  induction process with
  | settle reached => exact List.suffix_refl _
  | panic message =>
    cases settled
    exact absurd rfl (chosen rule message)
  | wait pause resume ih =>
    simp only [Process.continue] at settled ⊢
    split at settled
    · cases settled
    · exact (ih moment settled).trans (List.suffix_cons _ _)

theorem start_finished (process : Process)
    (settled : (process.start rule moment).2 = .settled decision) :
    [.finished] <:+ (process.start rule moment).1 := by
  cases process with
  | settle reached => exact List.suffix_cons _ _
  | panic message =>
    cases settled
    exact absurd rfl (chosen rule message)
  | wait pause resume =>
    simp only [Process.start] at settled ⊢
    split at settled
    · cases settled
    · exact (continue_finished rule moment decision chosen _ settled).trans (List.suffix_cons _ _)

omit rule moment in
theorem Course.finished {process : Process} {activities : List Activity} {flight : Flight}
    (course : process.Course activities flight) (settled : flight = .settled decision) :
    [.finished] <:+ activities := by
  induction course with
  | called rule moment => exact process.start_finished rule moment decision chosen settled
  | polled activities flight rule moment course ih =>
    cases flight with
    | settled reached =>
      -- nothing comes after the step that settled it
      rw [Flight.poll_settled, List.append_nil]
      exact ih settled
    | suspended suspension resume =>
      simp only [Flight.poll] at settled ⊢
      split at settled
      · next ended =>
        rw [if_pos ended]
        exact (continue_finished rule moment decision chosen _ settled).trans (List.suffix_append _ _)
      · cases settled

end Process

namespace Question

/-- The predicate of the question returned this decision itself, at the end of these activities. -/
def Returned (question : Question) (activities : List Activity) (decision : Decision) : Prop :=
  ∃ invoke invocation evidence moment, question.predicate = .custom invoke ∧
    (invoke invocation evidence moment).Course activities (.settled decision) ∧
    [.finished] <:+ activities

theorem Evaluates.returned {question : Question} {activities : List Activity}
    (evaluates : question.Evaluates activities (.settled (.error .cancelled))) :
    question.Returned activities (.error .cancelled) := by
  generalize same : Flight.settled (.error .cancelled) = flight at evaluates
  cases evaluates with
  | constant allowed predicate => cases allowed <;> cases same
  | custom invoke invocation evidence moment activities flight predicate course =>
    subst same
    exact ⟨invoke, invocation, evidence, moment, predicate, course,
      course.finished (.error .cancelled) (by simp) rfl⟩

end Question

namespace Question

variable {question : Question} {questions : RuleId → Question} {id : RuleId} {visit : Visit}
  {state after : State}

def Runs (question : Question) (flight : Flight) : Prop :=
  ∃ activities, question.Evaluates activities flight

theorem Polled.runs {stage later : Stage}
    (polled : question.Polled id visit state stage later after) (named : question = questions id)
    (stands : question.Stands id state.request.id visit.access stage)
    (own : ∀ flight, stage = .own flight → question.Runs flight)
    (all : ∀ key flight, state.request.memo.find? key = some flight →
      (questions key.rule).Runs flight) :
    Carried Runs questions question state after later := by
  refine polled.carried (fun asked state => ?_) (fun flight moment runs => ?_) named stands own all
  · obtain ⟨activities, evaluates, _⟩ := question.launch_evaluates id visit asked state
    exact ⟨activities, evaluates⟩
  · obtain ⟨activities, evaluates⟩ := runs
    exact ⟨_, evaluates.polled question.name moment⟩

end Question

structure State.Evaluations (questions : RuleId → Question) (request : RequestId) (state : State) :
    Prop where
  records : state.Records request
  flights : ∀ key flight, state.request.memo.find? key = some flight →
    key.request = request ∧ (questions key.rule).Evaluates (state.trace.activities key) flight

namespace State.Evaluations

variable {questions : RuleId → Question} {request : RequestId}

theorem calm {before after : State} (calm : before.Calm after)
    (evaluations : before.Evaluations questions request) :
    after.Evaluations questions request where
  records := evaluations.records.calm calm
  flights := by
    intro key flight found
    obtain ⟨own, evaluates⟩ := evaluations.flights key flight (calm.memo key ▸ found)
    refine ⟨own, ?_⟩
    rwa [calm.trace key (own.trans evaluations.records.id.symm)]

theorem polled {question : Question} {id : RuleId} {visit : Visit} {state after : State}
    {stage later : Stage} (polled : question.Polled id visit state stage later after)
    (named : question = questions id) (evaluations : state.Evaluations questions request) :
    after.Evaluations questions request := by
  obtain ⟨records, flights⟩ := evaluations
  refine ⟨polled.records records, fun key flight found => ?_⟩
  cases polled.turn key with
  | idle memo trace =>
    obtain ⟨own, evaluates⟩ := flights key flight (memo ▸ found)
    exact ⟨own, trace (own.trans records.id.symm) ▸ evaluates⟩
  | resumed former moment known memo trace =>
    obtain ⟨own, evaluates⟩ := flights key former known
    rw [memo] at found
    cases found
    exact ⟨own, trace (own.trans records.id.symm) ▸ evaluates.polled question.name moment⟩
  | launched activities begun missing own rule evaluates memo trace =>
    have known := records.flights key (own.trans records.id)
    rw [missing] at known
    rw [memo] at found
    cases found
    rw [trace, known.unasked_nil, rule, ← named]
    exact ⟨own.trans records.id, evaluates⟩

theorem runs {state : State} (evaluations : state.Evaluations questions request) (key : Key)
    (flight : Flight) (found : state.request.memo.find? key = some flight) :
    (questions key.rule).Runs flight :=
  ⟨_, (evaluations.flights key flight found).2⟩

end State.Evaluations

namespace Traffic

variable (calls : Nat → Call)

theorem step_rests (traffic : Traffic) (cancelled : traffic.state.request.cancelled = true)
    (move : Move) : traffic.state.Rests (step calls traffic move).state := by
  cases move with
  | poll caller now =>
    exact ((calls caller).poll_frozen now (traffic.works caller) traffic.state cancelled).2
  | drop caller => exact traffic.state.rests_refl
  | cancel =>
    refine ⟨?_, traffic.state.rests_refl.trace⟩
    simp only [step, Traffic.cancelled]
    rw [← cancelled]
  | elsewhere records =>
    refine ⟨rfl, _, rfl, ?_⟩
    intro record member own
    simp [own] at member

theorem run_rests (traffic : Traffic) (cancelled : traffic.state.request.cancelled = true)
    (moves : List Move) : traffic.state.Rests (run calls traffic moves).state := by
  induction moves generalizing traffic with
  | nil => exact traffic.state.rests_refl
  | cons move rest ih =>
    have first := step_rests calls traffic cancelled move
    exact first.trans (ih (step calls traffic move) (first.request ▸ cancelled))

/-- A request is frozen before these moves: they change nothing of its memo and of its counts, no
predicate takes a step, and every answer stands. Every leaf that they ask fails, and so would all
others that still wait. -/
structure Frozen (before : Traffic) (moves : List Move) : Prop where
  rests : before.state.Rests (run calls before moves).state
  answers : ∀ caller answer, before.works caller = .done answer →
    (run calls before moves).works caller = .done answer
  asked : ∀ pair ∈ probes calls before moves,
    pair.2.polled = (.settled (.error .cancelled), pair.2.state)
  awaited : ∀ caller now stage,
    (calls caller).reached ((run calls before moves).works caller) = some stage →
    ∃ decision,
      (calls caller).rule.Interrupts ((calls caller).visit now).precedence stage decision ∧
        (calls caller).rule.poll ((calls caller).visit now) stage (run calls before moves).state =
          (.settled decision, (run calls before moves).state)
  left : ∀ caller now, (calls caller).reached
    ((step calls (run calls before moves) (.poll caller now)).works caller) = none

theorem frozen_of_cancelled (traffic : Traffic) (cancelled : traffic.state.request.cancelled = true)
    (moves : List Move) : Frozen calls traffic moves := by
  have rests := run_rests calls traffic cancelled moves
  have still : (run calls traffic moves).state.request.cancelled = true := rests.request ▸ cancelled
  have lasting : Invariant calls (fun state => state.request.cancelled = true) fun _ _ _ _ => True :=
    invariant_of_state _ (fun _ _ calm => calm.cancelled)
      (fun probe waiting => (probe.polled_of_waiting waiting).keeps.cancelled.trans)
  refine ⟨rests, run_done calls traffic moves, fun pair member => ?_, fun caller now stage _ => ?_,
    fun caller now => ?_⟩
  · have asked := (Sound.run lasting ⟨cancelled, fun _ _ _ _ _ => trivial⟩ moves).2 pair member
    exact pair.2.question.poll_cancelled _ _ _ _ asked.state
  · exact Rule.poll_interrupted _ _ stage _ still
  · simp only [step, Function.update_self]
    exact ((calls caller).poll_frozen now _ _ still).1

variable {calls}

theorem evaluations_invariant (questions : RuleId → Question)
    (named : ∀ caller, (calls caller).rule.Named questions) (request : RequestId) :
    Invariant calls (State.Evaluations questions request)
      (fun access id question stage => question = questions id ∧
        question.Stands id request access stage ∧
        ∀ flight, stage = .own flight → question.Runs flight) where
  calm := fun _ _ calm evaluations => evaluations.calm calm
  fresh := fun caller leaf member =>
    ⟨named caller leaf member, trivial, fun _ same => (by cases same)⟩
  asked := by
    intro probe asked
    have polled := probe.polled_of_waiting asked.waiting
    obtain ⟨waiting, evaluations, same, stands, own⟩ := asked
    obtain rfl := evaluations.records.id
    exact ⟨evaluations.polled polled same, same, polled.stands stands,
      (polled.runs same stands own evaluations.runs).own⟩

/-- A request that is cancelled is frozen. At any time a decision of the memo reports a cancellation
only if the predicate returned this fault itself; an answer of a leaf does only if the predicate did,
or if the request was cancelled by then. -/
theorem frozen_once_cancelled (questions : RuleId → Question)
    (named : ∀ caller, (calls caller).rule.Named questions) (id : RequestId) (context : Json)
    (history : Trace) (earlier : List Move) :
    let traffic := run calls (opened id context history) earlier
    (traffic.state.request.cancelled = true → ∀ moves, Frozen calls traffic moves) ∧
      (∀ key, traffic.state.request.memo.find? key = some (.settled (.error .cancelled)) →
        (questions key.rule).Returned (traffic.state.trace.activities key) (.error .cancelled)) ∧
      ∀ pair ∈ probes calls (opened id context history) earlier,
        pair.2.reply = .settled (.error .cancelled) →
          pair.2.state.request.cancelled = true ∨
            ∃ activities, pair.2.question.Returned activities (.error .cancelled) := by
  have invariant := evaluations_invariant questions named id
  have opening : State.Evaluations questions id (opened id context history).state :=
    ⟨opened_records id context history, fun _ _ found => (by cases found)⟩
  obtain ⟨sound, asked⟩ := (invariant.opened id context history opening).run invariant earlier
  refine ⟨fun cancelled moves => frozen_of_cancelled calls _ cancelled moves,
    fun key found => ((sound.state.flights key _ found).2).returned, fun pair member failed => ?_⟩
  obtain ⟨waiting, evaluations, same, stands, own⟩ := asked pair member
  have polled := pair.2.polled_of_waiting waiting
  cases cancelled : pair.2.state.request.cancelled with
  | true => exact Or.inl rfl
  | false =>
    -- on a live request the answer comes from an evaluation, and so from the predicate
    obtain rfl := evaluations.records.id
    obtain ⟨activities, evaluates⟩ :=
      (polled.runs same stands own evaluations.runs).settled cancelled _ failed
    exact Or.inr ⟨activities, evaluates.returned⟩

theorem frozen_once_cancelled_delayed :
    let calls := fun _ => Call.evaluate (.leaf 1 (.delayed 10 .allow)) .last (.bare "Query" "report")
    let traffic := run calls (opened 1 .null []) [.poll 0 0, .cancel]
    (∀ caller, (calls caller).rule.Named fun _ => .delayed 10 .allow) ∧
      traffic.state.request.cancelled = true ∧
      (traffic.state.request.memo.find? ⟨1, 1, none⟩).isSome = true ∧
      Frozen calls traffic [.poll 0 10, .poll 1 20] := by
  -- A leaf waits for its delay when the request is cancelled; it is asked again at the end of the
  -- delay, and another caller asks it later.
  intro calls traffic
  have named : ∀ caller, (calls caller).rule.Named fun _ => .delayed 10 .allow := by
    intro caller leaf member
    rw [List.mem_singleton.mp member]
  have cancelled : traffic.state.request.cancelled = true := rfl
  refine ⟨named, cancelled, rfl, ?_⟩
  exact (frozen_once_cancelled _ named 1 .null [] [.poll 0 0, .cancel]).1 cancelled _

end Traffic

end FieldGuard
