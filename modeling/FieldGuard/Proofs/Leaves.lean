import FieldGuard.Proofs.Polls

set_option autoImplicit false

namespace FieldGuard

section

variable {α β : Type} [DecidableEq α] [BEq α] [LawfulBEq α]

theorem lookup_cons_eq (entries : List (α × β)) (key other : α) (value : β) :
    ((key, value) :: entries).lookup other =
      if other = key then some value else entries.lookup other := by
  by_cases same : other = key
  · simp [same]
  · have differs : (other == key) = false := by simpa using same
    simp [List.lookup_cons, same, differs]

theorem lookup_replaced (entries : List (α × β)) (key other : α) (value : β) :
    (entries.map fun entry => if entry.1 = key then (key, value) else entry).lookup other =
      if other = key then (entries.lookup key).map (fun _ => value) else entries.lookup other := by
  induction entries with
  | nil => simp
  | cons entry rest ih =>
    obtain ⟨found, old⟩ := entry
    rw [List.map_cons, lookup_cons_eq rest found key, lookup_cons_eq rest found other]
    by_cases own : found = key
    · subst own
      simp only [if_true, lookup_cons_eq, ih, Option.map_some]
      split <;> rfl
    · simp only [own, Ne.symm own, if_false, lookup_cons_eq, ih]
      by_cases same : other = key
      · simp [same, Ne.symm own]
      · simp [same]

theorem lookup_added (entries : List (α × β)) (key other : α) (value : β)
    (missing : entries.lookup key = none) :
    (entries ++ [(key, value)]).lookup other =
      if other = key then some value else entries.lookup other := by
  rw [List.lookup_append, lookup_cons_eq]
  by_cases same : other = key
  · simp [same, missing]
  · simp [same]

theorem lookup_removed (entries : List (α × β)) (key other : α) :
    (entries.filter fun entry => entry.1 != key).lookup other =
      if other = key then none else entries.lookup other := by
  induction entries with
  | nil => simp
  | cons entry rest ih =>
    obtain ⟨found, value⟩ := entry
    rw [lookup_cons_eq]
    by_cases own : found = key
    · subst own
      simp only [List.filter_cons, bne_self_eq_false, Bool.false_eq_true, if_false, ih]
      split <;> rfl
    · simp only [List.filter_cons, bne_iff_ne.mpr own, if_true, lookup_cons_eq, ih]
      by_cases same : other = key
      · simp [same, Ne.symm own]
      · simp [same]

end

theorem lookup_mapped {α β γ : Type} [BEq α] (entries : List (α × β)) (change : β → γ) (key : α) :
    (entries.map fun entry => (entry.1, change entry.2)).lookup key =
      (entries.lookup key).map change := by
  induction entries with
  | nil => rfl
  | cons entry rest ih =>
    rw [List.map_cons, List.lookup_cons, List.lookup_cons]
    cases key == entry.1 with
    | true => rfl
    | false => exact ih

namespace Memo

variable (memo : Memo) (key other : Key) (flight : Flight)

@[simp] theorem find?_hit : memo.hit.find? other = memo.find? other := rfl

theorem find?_insert (missing : memo.find? key = none) :
    (memo.insert key flight).find? other =
      if other = key then some flight else memo.find? other :=
  lookup_added memo.flights key other flight missing

theorem find?_replace :
    (memo.replace key flight).find? other =
      if other = key then (memo.find? key).map (fun _ => flight) else memo.find? other :=
  lookup_replaced memo.flights key other flight

end Memo

theorem Key.of?_eq_some {sharing : Sharing} {rule : RuleId} {request : RequestId}
    {access : FieldAccess} {key : Key} (known : Key.of? sharing rule request access = some key) :
    key.request = request ∧ key.rule = rule := by
  cases sharing <;> simp_all [Key.of?] <;> simp [← known]

def Trace.activities (trace : Trace) (key : Key) : List Activity :=
  trace.filterMap fun record =>
    match record.event with
    | .predicate _ _ (some asked) activity =>
        if record.request = key.request ∧ asked = key then some activity else none
    | _ => none

/-- The steps of predicates in a request: whose they are, under which key, and what was done. -/
def Trace.steps (trace : Trace) (request : RequestId) : List (RuleId × Option Key × Activity) :=
  trace.filterMap fun record =>
    match record.event with
    | .predicate id _ key activity =>
        if record.request = request then some (id, key, activity) else none
    | _ => none

theorem Trace.activities_eq (trace : Trace) (key : Key) :
    trace.activities key = (trace.steps key.request).filterMap fun step =>
      if step.2.1 = some key then some step.2.2 else none := by
  rw [activities, steps, List.filterMap_filterMap]
  refine congrArg (List.filterMap · trace) (funext fun record => ?_)
  obtain ⟨time, request, span, event⟩ := record
  cases event with
  | predicate id name asked activity =>
    cases asked with
    | none => by_cases own : request = key.request <;> simp [own]
    | some other => by_cases own : request = key.request <;> simp [own]
  | _ => rfl

theorem Trace.steps_append (trace records : Trace) (request : RequestId) :
    Trace.steps (trace ++ records) request = trace.steps request ++ records.steps request :=
  List.filterMap_append

@[simp] theorem Trace.activities_append (trace records : Trace) (key : Key) :
    Trace.activities (trace ++ records) key = trace.activities key ++ records.activities key :=
  List.filterMap_append

namespace State

variable (state : State) (visit : Visit) (memo : Memo) (event : Event) (events : List Event)

@[simp] theorem record_request : (state.record visit event).request = state.request := rfl

@[simp] theorem recordAll_request : (state.recordAll visit events).request = state.request := rfl

@[simp] theorem withMemo_id : (state.withMemo memo).request.id = state.request.id := rfl

@[simp] theorem withMemo_context :
    (state.withMemo memo).request.context = state.request.context :=
  rfl

@[simp] theorem withMemo_cancelled :
    (state.withMemo memo).request.cancelled = state.request.cancelled :=
  rfl

@[simp] theorem withMemo_memo : (state.withMemo memo).request.memo = memo := rfl

@[simp] theorem withMemo_trace : (state.withMemo memo).trace = state.trace := rfl

/-- A change in which no predicate of the request has a part. -/
structure Calm (before after : State) : Prop where
  id : after.request.id = before.request.id
  context : after.request.context = before.request.context
  cancelled : before.request.cancelled = true → after.request.cancelled = true
  memo : ∀ key, after.request.memo.find? key = before.request.memo.find? key
  steps : after.trace.steps before.request.id = before.trace.steps before.request.id

theorem Calm.trace {before after : State} (calm : before.Calm after) (key : Key)
    (own : key.request = before.request.id) :
    after.trace.activities key = before.trace.activities key := by
  rw [Trace.activities_eq, Trace.activities_eq, own, calm.steps]

theorem calm_refl : state.Calm state := ⟨rfl, rfl, fun same => same, fun _ => rfl, rfl⟩

theorem Calm.trans {before middle after : State} (first : before.Calm middle)
    (second : middle.Calm after) : before.Calm after where
  id := second.id.trans first.id
  context := second.context.trans first.context
  cancelled := fun cancelled => second.cancelled (first.cancelled cancelled)
  memo := fun key => (second.memo key).trans (first.memo key)
  steps := (first.id ▸ second.steps).trans first.steps

theorem calm_record (silent : ∀ id name key activity, event ≠ .predicate id name key activity) :
    state.Calm (state.record visit event) where
  id := rfl
  context := rfl
  cancelled := fun same => same
  memo := fun _ => rfl
  steps := by
    cases event with
    | predicate id name asked activity => exact absurd rfl (silent id name asked activity)
    | _ => simp [record, Trace.steps]

theorem calm_hit : state.Calm (state.withMemo state.request.memo.hit) :=
  ⟨rfl, rfl, fun same => same, fun _ => rfl, rfl⟩

theorem calm_cancel :
    state.Calm { state with request := { state.request with cancelled := true } } :=
  ⟨rfl, rfl, fun _ => rfl, fun _ => rfl, rfl⟩

theorem calm_elsewhere (records : Trace)
    (foreign : ∀ record ∈ records, record.request ≠ state.request.id) :
    state.Calm { state with trace := state.trace ++ records } where
  id := rfl
  context := rfl
  cancelled := fun same => same
  memo := fun _ => rfl
  steps := by
    simp only [Trace.steps_append, List.append_right_eq_self]
    simp only [Trace.steps, List.filterMap_eq_nil_iff]
    intro record member
    have other := foreign record member
    split <;> simp [other]

end State

namespace Question

variable (question : Question) (id : RuleId) (visit : Visit)

@[simp] theorem launch_request (key : Option Key) (state : State) :
    (question.launch id key visit state).2.request = state.request := by
  unfold launch
  split <;> rfl

theorem poll_cancelled (stage : Stage) (state : State) (cancelled : state.request.cancelled = true) :
    question.poll id visit stage state = (.settled (.error .cancelled), state) := by
  unfold poll
  rw [if_pos cancelled]

theorem resume_eq (key : Option Key) (flight : Flight) (state : State) :
    question.resume id key visit flight state =
      ((flight.poll question.name (state.moment visit)).2,
        state.recordAll visit
          (question.activities id key (flight.poll question.name (state.moment visit)).1)) :=
  rfl

theorem launch_eq (key : Option Key) (state : State) :
    (∃ allowed, question.predicate = .constant allowed ∧
      question.launch id key visit state =
        (.settled (if allowed then .allow else .deny none), state)) ∨
    ∃ invoke invocation evidence, question.predicate = .custom invoke ∧
      ∃ started, started = (invoke invocation evidence (state.moment visit)).start question.name
          (state.moment visit) ∧
        question.launch id key visit state = (started.2,
          (state.record visit (.invoking question.name visit.access.site.display)).recordAll visit
            (question.activities id key started.1)) := by
  cases predicate : question.predicate with
  | constant allowed => exact Or.inl ⟨allowed, rfl, by simp only [launch, predicate]⟩
  | custom invoke =>
    refine Or.inr ⟨invoke, state.trace.calls id, state.evidence visit, rfl, _, rfl, ?_⟩
    simp [launch, predicate, State.recordAll, State.record]

theorem recordAll_activities (asked : Option Key) (found : List Activity) (state : State) (key : Key)
    (own : key.request = state.request.id) :
    (state.recordAll visit (question.activities id asked found)).trace.activities key =
      state.trace.activities key ++ if asked = some key then found else [] := by
  simp only [State.recordAll, Trace.activities_append, List.append_cancel_left_eq]
  simp only [Trace.activities, activities, List.map_map, List.filterMap_map]
  cases asked with
  | none => simp
  | some other => by_cases same : other = key <;> simp [same, own, Function.comp_def]

theorem recordAll_steps (asked : Option Key) (found : List Activity) (state : State) :
    (state.recordAll visit (question.activities id asked found)).trace.steps state.request.id =
      state.trace.steps state.request.id ++ found.map (id, asked, ·) := by
  simp only [State.recordAll, Trace.steps_append, List.append_cancel_left_eq]
  simp [Trace.steps, activities, List.filterMap_map, Function.comp_def]

/-- What becomes of a leaf that is asked, by the state and the stage in which it is found. -/
inductive Polled : State → Stage → Stage → State → Prop
  | cancelled (state : State) (stage : Stage) (cancelled : state.request.cancelled = true) :
      Polled state stage (.settled (.error .cancelled)) state
  | lost (state : State) (key : Key) (missing : state.request.memo.find? key = none) :
      Polled state (.shared key) (.shared key) state
  | own (state : State) (flight : Flight) (running : state.request.cancelled = false) :
      Polled state (.own flight) (ownStage (question.resume id none visit flight state).1)
        (question.resume id none visit flight state).2
  | shared (state : State) (key : Key) (flight : Flight)
      (running : state.request.cancelled = false)
      (found : state.request.memo.find? key = some flight) :
      Polled state (.shared key)
        (sharedStage key (question.resume id (some key) visit flight state).1)
        ((question.resume id (some key) visit flight state).2.withMemo
          (state.request.memo.replace key (question.resume id (some key) visit flight state).1))
  | joined (state looked : State) (stage later : Stage) (after : State) (key : Key)
      (running : state.request.cancelled = false)
      (known : Key.of? question.sharing id state.request.id visit.access = some key)
      (calm : state.Calm looked) (still : looked.request.cancelled = state.request.cancelled)
      (polled : Polled looked (.shared key) later after) :
      Polled state stage later after
  | launched (state looked : State) (stage : Stage) (key : Key)
      (running : state.request.cancelled = false)
      (known : Key.of? question.sharing id state.request.id visit.access = some key)
      (missing : looked.request.memo.find? key = none) (calm : state.Calm looked)
      (still : looked.request.cancelled = state.request.cancelled) :
      Polled state stage (sharedStage key (question.launch id (some key) visit looked).1)
        ((question.launch id (some key) visit looked).2.withMemo
          (looked.request.memo.insert key (question.launch id (some key) visit looked).1))
  | alone (state : State) (stage : Stage) (running : state.request.cancelled = false)
      (unknown : Key.of? question.sharing id state.request.id visit.access = none) :
      Polled state stage (ownStage (question.launch id none visit state).1)
        (question.launch id none visit state).2

theorem pollShared_polled (key : Key) (state : State) (running : state.request.cancelled = false) :
    question.Polled id visit state (.shared key) (question.pollShared id visit key state).1
      (question.pollShared id visit key state).2 := by
  unfold pollShared
  cases found : state.request.memo.find? key with
  | none => exact .lost state key found
  | some flight => exact .shared state key flight running found

theorem begin_polled (stage : Stage) (state : State) (running : state.request.cancelled = false) :
    question.Polled id visit state stage (question.begin id visit state).1
      (question.begin id visit state).2 := by
  unfold begin
  cases known : Key.of? question.sharing id state.request.id visit.access with
  | none => exact .alone state stage running known
  | some key =>
    have calm (hit : Bool) : state.Calm
        (state.record visit (.lookup key question.name question.sharing hit)) :=
      state.calm_record visit _ (by simp)
    cases found : state.request.memo.find? key with
    | none =>
      simp only [join, found, Option.isSome_none, Bool.false_eq_true, if_false]
      -- a miss is recorded before the launch, which changes nothing that the memo knows
      have launched : question.Polled id visit state stage _ _ :=
        .launched state _ stage key running known (by exact found) (calm false) rfl
      simpa using launched
    | some flight =>
      simp only [join, found, Option.isSome_some, if_true]
      exact .joined state _ stage _ _ key running known ((calm true).trans (State.calm_hit _)) rfl
        (question.pollShared_polled id visit key _ running)

theorem poll_polled (stage : Stage) (state : State) (waiting : stage.decision? = none) :
    question.Polled id visit state stage (question.poll id visit stage state).1
      (question.poll id visit stage state).2 := by
  by_cases cancelled : state.request.cancelled = true
  · rw [question.poll_cancelled id visit stage state cancelled]
    exact .cancelled state stage cancelled
  · have running : state.request.cancelled = false := by simpa using cancelled
    unfold poll
    simp only [running, Bool.false_eq_true, if_false]
    cases stage with
    | fresh => exact question.begin_polled id visit _ state running
    | group operands first => exact question.begin_polled id visit _ state running
    | settled decision => cases waiting
    | own flight => exact .own state flight running
    | shared key => exact question.pollShared_polled id visit key state running

structure Keeps (before after : State) : Prop where
  id : after.request.id = before.request.id
  context : after.request.context = before.request.context
  cancelled : after.request.cancelled = before.request.cancelled

variable {question id visit}

theorem Polled.keeps {state after : State} {stage later : Stage}
    (polled : question.Polled id visit state stage later after) : Keeps state after := by
  -- a leaf that joins a flight is polled once more, under its key
  induction polled with
  | cancelled state stage cancelled => exact ⟨rfl, rfl, rfl⟩
  | lost state key missing => exact ⟨rfl, rfl, rfl⟩
  | own state flight running => exact ⟨rfl, rfl, rfl⟩
  | shared state key flight running found => exact ⟨rfl, rfl, rfl⟩
  | joined state looked stage later after key running known calm still polled ih =>
    exact ⟨ih.id.trans calm.id, ih.context.trans calm.context, ih.cancelled.trans still⟩
  | launched state looked stage key running known missing calm still =>
    exact ⟨by simpa using calm.id, by simpa using calm.context, by simpa using still⟩
  | alone state stage running unknown => constructor <;> simp

def Stands (question : Question) (id : RuleId) (request : RequestId) (access : FieldAccess) :
    Stage → Prop
  | .shared key => Key.of? question.sharing id request access = some key
  | .own _ => Key.of? question.sharing id request access = none
  | _ => True

theorem stands_own (request : RequestId) (access : FieldAccess) (flight : Flight)
    (unknown : Key.of? question.sharing id request access = none) :
    question.Stands id request access (ownStage flight) := by
  cases flight with
  | settled decision => exact trivial
  | suspended suspension resume => exact unknown

theorem stands_shared (request : RequestId) (access : FieldAccess) (key : Key) (flight : Flight)
    (known : Key.of? question.sharing id request access = some key) :
    question.Stands id request access (sharedStage key flight) := by
  cases flight with
  | settled decision => exact trivial
  | suspended suspension resume => exact known

theorem Polled.stands {state after : State} {stage later : Stage}
    (polled : question.Polled id visit state stage later after)
    (stands : question.Stands id state.request.id visit.access stage) :
    question.Stands id state.request.id visit.access later := by
  induction polled with
  | cancelled state stage cancelled => exact trivial
  | lost state key missing => exact stands
  | own state flight running => exact stands_own _ _ _ stands
  | shared state key flight running found => exact stands_shared _ _ _ _ stands
  | joined state looked stage later after key running known calm still polled ih =>
    -- the key is that of the state before the lookup
    rw [← calm.id] at known ⊢
    exact ih known
  | launched state looked stage key running known missing calm still =>
    exact stands_shared _ _ _ _ known
  | alone state stage running unknown => exact stands_own _ _ _ unknown

theorem launch_steps (key : Option Key) (state : State) :
    ∃ found : List Activity, (question.launch id key visit state).2.trace.steps state.request.id =
      state.trace.steps state.request.id ++ found.map (id, key, ·) := by
  rcases question.launch_eq id visit key state with
    ⟨_, _, launched⟩ | ⟨invoke, invocation, evidence, _, started, _, launched⟩
  · exact ⟨[], by rw [launched]; simp⟩
  · refine ⟨started.1, ?_⟩
    rw [launched]
    have invoking := state.calm_record visit (.invoking question.name visit.access.site.display)
      (by simp)
    exact (question.recordAll_steps id visit key started.1 _).trans (by rw [invoking.id, invoking.steps])

theorem Polled.steps {state after : State} {stage later : Stage}
    (polled : question.Polled id visit state stage later after)
    (stands : question.Stands id state.request.id visit.access stage) :
    ∃ found : List Activity, after.trace.steps state.request.id = state.trace.steps state.request.id ++
      found.map (id, Key.of? question.sharing id state.request.id visit.access, ·) := by
  induction polled with
  | cancelled state stage cancelled => exact ⟨[], by simp⟩
  | lost state key missing => exact ⟨[], by simp⟩
  | own state flight running =>
    have unknown : Key.of? question.sharing id state.request.id visit.access = none := stands
    rw [unknown]
    exact ⟨_, question.recordAll_steps id visit none _ state⟩
  | shared state key flight running found =>
    have known : Key.of? question.sharing id state.request.id visit.access = some key := stands
    rw [known]
    exact ⟨_, question.recordAll_steps id visit (some key) _ state⟩
  | joined state looked stage later after key running known calm still polled ih =>
    rw [← calm.steps, ← calm.id] at *
    exact ih known
  | launched state looked stage key running known missing calm still =>
    obtain ⟨found, same⟩ := question.launch_steps (some key) looked
    rw [known, ← calm.steps, ← calm.id]
    exact ⟨found, same⟩
  | alone state stage running unknown =>
    rw [unknown]
    exact question.launch_steps none state

end Question

theorem Probe.polled_of_waiting (probe : Probe) (waiting : probe.stage.decision? = none) :
    probe.question.Polled probe.id probe.visit probe.state probe.stage probe.reply probe.after :=
  probe.question.poll_polled probe.id probe.visit probe.stage probe.state waiting

theorem Rule.poll_cancelled_eq (visit : Visit) (rule : Rule) (stage : Stage) (state : State) :
    (rule.poll visit stage state).2.request.cancelled = state.request.cancelled :=
  (rule.poll_keeps visit (fun later => later.request.cancelled = state.request.cancelled)
    (fun _ _ _ => True)
    (fun probe _ waiting same _ =>
      ⟨(probe.polled_of_waiting waiting).keeps.cancelled.trans same, trivial⟩)
    stage state rfl (fun _ _ => trivial)).1

end FieldGuard
