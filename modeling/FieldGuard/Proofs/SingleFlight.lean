import FieldGuard.Proofs.Flights
import FieldGuard.Proofs.Traffic

set_option autoImplicit false

namespace FieldGuard

/-- What the trace of a request says about a key, and the flight that the memo keeps for it. -/
inductive Recorded : List Activity → Option Flight → Prop
  | unasked : Recorded [] none
  | constant (decision : Decision) : Recorded [] (some (.settled decision))
  | called (process : Process) (activities : List Activity) (flight : Flight)
      (course : process.Course activities flight) : Recorded activities (some flight)

theorem Recorded.unasked_nil {activities : List Activity} (recorded : Recorded activities none) :
    activities = [] := by
  cases recorded
  rfl

theorem Recorded.polled {activities : List Activity} {flight : Flight}
    (recorded : Recorded activities (some flight)) (rule : String) (moment : Moment) :
    Recorded (activities ++ (flight.poll rule moment).1) (some (flight.poll rule moment).2) := by
  cases recorded with
  | constant decision => exact .constant decision
  | called process activities flight course =>
    exact .called process _ _ (.polled activities flight rule moment course)

structure State.Records (request : RequestId) (state : State) : Prop where
  id : state.request.id = request
  flights : ∀ key, key.request = request →
    Recorded (state.trace.activities key) (state.request.memo.find? key)

theorem State.Records.calm {request : RequestId} {before after : State} (calm : before.Calm after)
    (records : before.Records request) : after.Records request where
  id := calm.id.trans records.id
  flights := by
    intro key own
    rw [calm.memo key, calm.trace key (own.trans records.id.symm)]
    exact records.flights key own

namespace Question

variable {question : Question} {id : RuleId} {visit : Visit} {request : RequestId}

theorem Evaluates.recorded {activities : List Activity} {flight : Flight}
    (evaluates : question.Evaluates activities flight) : Recorded activities (some flight) := by
  cases evaluates with
  | constant allowed predicate => exact .constant _
  | custom invoke invocation evidence moment activities flight predicate course =>
    exact .called _ activities flight course

inductive Turn (question : Question) (id : RuleId) (before after : State) (key : Key) : Prop
  | idle (memo : after.request.memo.find? key = before.request.memo.find? key)
      (trace : key.request = before.request.id →
        after.trace.activities key = before.trace.activities key)
  | resumed (flight : Flight) (moment : Moment)
      (found : before.request.memo.find? key = some flight)
      (memo : after.request.memo.find? key = some (flight.poll question.name moment).2)
      (trace : key.request = before.request.id → after.trace.activities key =
        before.trace.activities key ++ (flight.poll question.name moment).1)
  | launched (activities : List Activity) (flight : Flight)
      (missing : before.request.memo.find? key = none) (request : key.request = before.request.id)
      (rule : key.rule = id) (evaluates : question.Evaluates activities flight)
      (memo : after.request.memo.find? key = some flight)
      (trace : after.trace.activities key = before.trace.activities key ++ activities)

theorem Polled.turn {state after : State} {stage later : Stage}
    (polled : question.Polled id visit state stage later after) (key : Key) :
    question.Turn id state after key := by
  induction polled with
  | cancelled state stage cancelled => exact .idle rfl fun _ => rfl
  | lost state other missing => exact .idle rfl fun _ => rfl
  | own state flight running =>
    refine .idle rfl fun own => ?_
    rw [resume_eq, recordAll_activities _ _ _ _ _ _ _ own]
    simp
  | shared state other flight running found =>
    -- the flight goes on under its own key, and the trace with it
    by_cases same : key = other
    · subst same
      refine .resumed flight (state.moment visit) found ?_ fun own => ?_
      · simp [resume_eq, Memo.find?_replace, found]
      · rw [resume_eq, State.withMemo_trace, recordAll_activities _ _ _ _ _ _ _ own, if_pos rfl]
    · have differs : (some other : Option Key) ≠ some key := by simpa using Ne.symm same
      refine .idle (by simp [Memo.find?_replace, same]) fun own => ?_
      rw [resume_eq, State.withMemo_trace, recordAll_activities _ _ _ _ _ _ _ own, if_neg differs,
        List.append_nil]
  | joined state looked stage later after other running known calm still polled ih =>
    cases ih with
    | idle memo trace =>
      refine .idle (memo.trans (calm.memo key)) fun own => ?_
      rw [trace (own.trans calm.id.symm), calm.trace key own]
    | resumed flight moment found memo trace =>
      refine .resumed flight moment (calm.memo key ▸ found) memo fun own => ?_
      rw [trace (own.trans calm.id.symm), calm.trace key own]
    | launched activities flight missing request rule evaluates memo trace =>
      have own := request.trans calm.id
      refine .launched activities flight (calm.memo key ▸ missing) own rule evaluates memo ?_
      rw [trace, calm.trace key own]
  | launched state looked stage other running known missing calm still =>
    obtain ⟨activities, evaluates, trace⟩ := question.launch_evaluates id visit (some other) looked
    by_cases same : key = other
    · subst same
      obtain ⟨request, rule⟩ := Key.of?_eq_some known
      refine .launched activities _ (calm.memo key ▸ missing) request rule evaluates ?_ ?_
      · simp [Memo.find?_insert _ _ _ _ missing]
      · rw [State.withMemo_trace, trace key (request.trans calm.id.symm), if_pos rfl,
          calm.trace key request]
    · have differs : (some other : Option Key) ≠ some key := by simpa using Ne.symm same
      refine .idle (by simp [Memo.find?_insert _ _ _ _ missing, same, calm.memo]) fun own => ?_
      rw [State.withMemo_trace, trace key (own.trans calm.id.symm), if_neg differs,
        List.append_nil, calm.trace key own]
  | alone state stage running unknown =>
    obtain ⟨activities, evaluates, trace⟩ := question.launch_evaluates id visit none state
    refine .idle (by simp) fun own => ?_
    rw [trace key own, if_neg (by simp), List.append_nil]

theorem Polled.records {state after : State} {stage later : Stage}
    (polled : question.Polled id visit state stage later after) (records : state.Records request) :
    after.Records request := by
  refine ⟨polled.keeps.id.trans records.id, fun key own => ?_⟩
  have known := records.flights key own
  have here := own.trans records.id.symm
  cases polled.turn key with
  | idle memo trace =>
    rw [memo, trace here]
    exact known
  | resumed flight moment found memo trace =>
    rw [memo, trace here]
    rw [found] at known
    exact known.polled question.name moment
  | launched activities flight missing request rule evaluates memo trace =>
    -- a key that the memo does not have was not asked before
    rw [missing] at known
    rw [memo, trace, known.unasked_nil]
    exact evaluates.recorded

theorem Polled.settled {state after : State} {stage later : Stage}
    (polled : question.Polled id visit state stage later after) (key : Key) (decision : Decision)
    (settled : state.request.memo.find? key = some (.settled decision)) :
    after.request.memo.find? key = some (.settled decision) := by
  cases polled.turn key with
  | idle memo trace => rw [memo, settled]
  | resumed flight moment found memo trace =>
    rw [settled] at found
    cases found
    exact memo
  | launched activities flight missing request rule evaluates memo trace =>
    rw [settled] at missing
    cases missing

theorem sharedStage_settled {key : Key} {flight : Flight} {decision : Decision}
    (settled : sharedStage key flight = .settled decision) : flight = .settled decision := by
  cases flight with
  | suspended suspension resume => cases settled
  | settled reached =>
    cases settled
    rfl

theorem Polled.kept {state after : State} {stage later : Stage}
    (polled : question.Polled id visit state stage later after)
    (stands : question.Stands id state.request.id visit.access stage)
    (running : state.request.cancelled = false) (key : Key)
    (known : Key.of? question.sharing id state.request.id visit.access = some key)
    (decision : Decision) (settled : later = .settled decision) :
    after.request.memo.find? key = some (.settled decision) := by
  induction polled with
  | cancelled state stage cancelled => simp [cancelled] at running
  -- a leaf that waits for a flight gets no decision without one
  | lost state other missing => cases settled
  | own state flight running =>
    rw [stands] at known
    cases known
  | shared state other flight running found =>
    rw [stands] at known
    cases known
    simp [resume_eq, Memo.find?_replace, found]
    exact sharedStage_settled settled
  | joined state looked stage later after other running same calm still polled ih =>
    rw [known] at same
    cases same
    rw [← calm.id] at known
    exact ih known (still.trans running) known settled
  | launched state looked stage other running same missing calm still =>
    rw [known] at same
    cases same
    simp [Memo.find?_insert _ _ _ _ missing]
    exact sharedStage_settled settled
  | alone state stage running unknown =>
    rw [known] at unknown
    cases unknown

end Question

structure Probe.Answers (probe : Probe) (key : Key) (decision : Decision) : Prop where
  known : Key.of? probe.question.sharing probe.id probe.state.request.id probe.visit.access = some key
  running : probe.state.request.cancelled = false
  reply : probe.reply = .settled decision

/-- The evaluation of a key in a run that asked these leaves. -/
structure Key.SingleFlight (key : Key) (state : State) (asked : List (Nat × Probe)) : Prop where
  once : (state.trace.activities key).count .called ≤ 1
  ordered : ∃ steps ending, (ending = .finished ∨ ending = .panicked) ∧
    state.trace.activities key <+: .called :: List.replicate steps .stepped ++ [ending]
  resumed : state.trace.activities key = [] ∨
    ∃ process flight, Process.Course process (state.trace.activities key) flight ∧
      state.request.memo.find? key = some flight
  agreed : ∀ first ∈ asked, ∀ second ∈ asked, ∀ decision other,
    first.2.Answers key decision → second.2.Answers key other → decision = other

theorem Recorded.ordered {activities : List Activity} {flight : Option Flight}
    (recorded : Recorded activities flight) :
    ∃ steps ending, (ending = .finished ∨ ending = .panicked) ∧
      activities <+: .called :: List.replicate steps .stepped ++ [ending] := by
  cases recorded with
  | unasked => exact ⟨0, .finished, Or.inl rfl, List.nil_prefix⟩
  | constant decision => exact ⟨0, .finished, Or.inl rfl, List.nil_prefix⟩
  | called process activities flight course =>
    obtain ⟨rest, rfl, follows⟩ := course.follows
    cases flight with
    | suspended suspension resume =>
      obtain ⟨steps, rfl⟩ := follows
      exact ⟨steps, .finished, Or.inl rfl, List.prefix_append _ _⟩
    | settled decision =>
      obtain ⟨steps, rfl | rfl⟩ := follows
      · exact ⟨steps, .finished, Or.inl rfl, List.prefix_rfl⟩
      · exact ⟨steps, .panicked, Or.inr rfl, List.prefix_rfl⟩

theorem Recorded.once {activities : List Activity} {flight : Option Flight}
    (recorded : Recorded activities flight) : activities.count .called ≤ 1 := by
  obtain ⟨steps, ending, isEnd, isPrefix⟩ := recorded.ordered
  have whole : (Activity.called :: List.replicate steps .stepped ++ [ending]).count .called = 1 := by
    rcases isEnd with rfl | rfl <;> simp [List.count_replicate]
  exact whole ▸ isPrefix.sublist.count_le .called

theorem Recorded.resumed {activities : List Activity} {flight : Option Flight}
    (recorded : Recorded activities flight) :
    activities = [] ∨ ∃ process reached, Process.Course process activities reached ∧
      flight = some reached := by
  cases recorded with
  | unasked => exact Or.inl rfl
  | constant decision => exact Or.inl rfl
  | called process activities reached course => exact Or.inr ⟨process, reached, course, rfl⟩

namespace Traffic

variable (calls : Nat → Call) (id : RequestId) (context : Json) (history : Trace)
  (moves : List Move)

theorem opened_steps : (opened id context history).state.trace.steps id = [] := by
  simp only [opened, Trace.steps, List.filterMap_eq_nil_iff]
  intro record member
  have other : record.request ≠ id := by simpa using (List.mem_filter.mp member).2
  split <;> simp [other]

theorem opened_records : (opened id context history).state.Records id where
  id := rfl
  flights := by
    rintro key rfl
    rw [Trace.activities_eq, opened_steps]
    exact .unasked

theorem run_records : (run calls (opened id context history) moves).state.Records id :=
  run_preserves _ (fun _ _ calm => State.Records.calm calm)
    (fun probe waiting => (probe.polled_of_waiting waiting).records) _ moves
    (opened_records id context history)

theorem run_kept (pair : Nat × Probe)
    (member : pair ∈ probes calls (opened id context history) moves) (key : Key)
    (decision : Decision) (answers : pair.2.Answers key decision) :
    (run calls (opened id context history) moves).state.request.memo.find? key =
      some (.settled decision) := by
  have invariant := stands_invariant calls id
  have asked := ((invariant.opened id context history rfl).run invariant moves).2 pair member
  have polled := pair.2.polled_of_waiting asked.waiting
  apply run_lasts (fun state => state.request.memo.find? key = some (.settled decision))
    (fun _ _ calm kept => (calm.memo key).trans kept)
    (fun probe waiting => (probe.polled_of_waiting waiting).settled key decision) _ moves pair member
  exact polled.kept (asked.state ▸ asked.stage) answers.running key answers.known decision
    answers.reply

/-- The step belongs to a leaf of a call, and stands under its key: under the leaf alone, or with the
input of the field. A leaf that is not shared has no key. -/
def Tagged (step : RuleId × Option Key × Activity) : Prop :=
  ∃ caller question, (step.1, question) ∈ (calls caller).rule.leaves ∧
    step.2.1 = match question.sharing with
      | .none => none
      | .contextual => some ⟨id, step.1, none⟩
      | .strict =>
          let access := (calls caller).access
          some ⟨id, step.1, some (strictInput access.parent access.args)⟩

theorem tagged_invariant :
    Invariant calls
      (fun state => state.request.id = id ∧ ∀ step ∈ state.trace.steps id, Tagged calls id step)
      (fun access leaf question stage => question.Stands leaf id access stage ∧
        ∃ caller, (leaf, question) ∈ (calls caller).rule.leaves ∧ access = (calls caller).access) where
  calm := by
    rintro before after calm ⟨rfl, tagged⟩
    exact ⟨calm.id, fun step member => tagged step (calm.steps ▸ member)⟩
  fresh := fun caller leaf member => ⟨trivial, caller, member, rfl⟩
  asked := by
    rintro probe ⟨waiting, ⟨rfl, tagged⟩, stands, caller, member, access⟩
    have polled := probe.polled_of_waiting waiting
    obtain ⟨found, steps⟩ := polled.steps stands
    refine ⟨⟨polled.keeps.id, fun step inside => ?_⟩, polled.stands stands, caller, member, access⟩
    rw [steps, List.mem_append] at inside
    rcases inside with old | new
    · exact tagged step old
    · obtain ⟨activity, _, rfl⟩ := List.mem_map.mp new
      refine ⟨caller, probe.question, member, ?_⟩
      rw [← access]
      unfold Key.of?
      cases probe.question.sharing <;> rfl

theorem run_tagged :
    ∀ step ∈ (run calls (opened id context history) moves).state.trace.steps id,
      Tagged calls id step := by
  have invariant := tagged_invariant calls id
  have opening : ∀ step ∈ (opened id context history).state.trace.steps id, Tagged calls id step := by
    simp [opened_steps]
  exact ((invariant.opened id context history ⟨rfl, opening⟩).run invariant moves).1.state.2

/-- Whatever calls are made on a request, in whatever order they are polled and dropped, and
whenever it is cancelled, each key has one evaluation at most, which every caller joins. No step of
a predicate is taken but under the key of its leaf. -/
theorem single_flight :
    (∀ rule input, Key.SingleFlight ⟨id, rule, input⟩
      (run calls (opened id context history) moves).state
      (probes calls (opened id context history) moves)) ∧
    ∀ step ∈ (run calls (opened id context history) moves).state.trace.steps id,
      Tagged calls id step := by
  refine ⟨fun rule input => ?_, run_tagged calls id context history moves⟩
  have recorded := (run_records calls id context history moves).flights ⟨id, rule, input⟩ rfl
  refine ⟨recorded.once, recorded.ordered, recorded.resumed, ?_⟩
  intro first former second latter decision other answers others
  -- both decisions are the one that the memo keeps at the end of the run
  have kept := run_kept calls id context history moves first former _ decision answers
  rw [run_kept calls id context history moves second latter _ other others] at kept
  cases kept
  rfl

end Traffic

end FieldGuard
