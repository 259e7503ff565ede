import FieldGuard.Proofs.Leaves

set_option autoImplicit false

namespace FieldGuard

/-- The decisions that a process may come to, whatever happens while it waits. -/
inductive Process.MayEnd (rule : String) : Process → Decision → Prop
  | settle (decision : Decision) : MayEnd rule (.settle decision) decision
  | panic (message : String) : MayEnd rule (.panic message) (.error (.panicked rule message))
  | wait (pause : Pause) (resume : Moment → Process) (moment : Moment) (decision : Decision)
      (ends : MayEnd rule (resume moment) decision) : MayEnd rule (.wait pause resume) decision

def Flight.MayEnd (rule : String) : Flight → Decision → Prop
  | .suspended _ resume, decision => ∃ moment, (resume moment).MayEnd rule decision
  | .settled reached, decision => decision = reached

def Question.MayEnd (question : Question) (decision : Decision) : Prop :=
  match question.predicate with
  | .constant allowed => decision = if allowed then .allow else .deny none
  | .custom invoke =>
      ∃ invocation evidence moment,
        (invoke invocation evidence moment).MayEnd question.name decision

def Question.Settles (question : Question) (decision : Decision) : Prop :=
  ∀ reached, question.MayEnd reached → reached = decision

def Question.delayed (duration : Nat) (answer : Decision) : Question :=
  { name := "delayed"
    sharing := .contextual
    predicate := .custom fun _ _ _ => .wait (.sleep duration) fun _ => .settle answer }

def Question.unshared (question : Question) : Question := { question with sharing := .none }

theorem Question.delayed_settles (duration : Nat) (answer : Decision) :
    (Question.delayed duration answer).Settles answer := by
  rintro reached ⟨_, _, _, ends⟩
  cases ends with
  | wait _ _ _ _ ends =>
    cases ends
    rfl

/-- An evaluation of a process from its call on. It is called once, and every poll goes on where
the one before it stopped. -/
inductive Process.Course (process : Process) : List Activity → Flight → Prop
  | called (rule : String) (moment : Moment) :
      Course process (process.start rule moment).1 (process.start rule moment).2
  | polled (activities : List Activity) (flight : Flight) (rule : String) (moment : Moment)
      (course : Course process activities flight) :
      Course process (activities ++ (flight.poll rule moment).1) (flight.poll rule moment).2

inductive Question.Evaluates (question : Question) : List Activity → Flight → Prop
  | constant (allowed : Bool) (predicate : question.predicate = .constant allowed) :
      Evaluates question [] (.settled (if allowed then .allow else .deny none))
  | custom (invoke : Nat → Evidence → Moment → Process) (invocation : Nat) (evidence : Evidence)
      (moment : Moment) (activities : List Activity) (flight : Flight)
      (predicate : question.predicate = .custom invoke)
      (course : (invoke invocation evidence moment).Course activities flight) :
      Evaluates question activities flight

theorem Question.Evaluates.polled {question : Question} {activities : List Activity}
    {flight : Flight} (evaluates : question.Evaluates activities flight) (rule : String)
    (moment : Moment) :
    question.Evaluates (activities ++ (flight.poll rule moment).1) (flight.poll rule moment).2 := by
  cases evaluates with
  | constant allowed predicate => exact .constant allowed predicate
  | custom invoke invocation evidence first activities flight predicate course =>
    exact .custom invoke invocation evidence first _ _ predicate (.polled _ _ rule moment course)

def Flight.Follows (flight : Flight) (activities : List Activity) : Prop :=
  match flight with
  | .suspended _ _ => ∃ steps, activities = List.replicate steps .stepped
  | .settled _ =>
      ∃ steps, activities = List.replicate steps .stepped ++ [.finished] ∨
        activities = List.replicate steps .stepped ++ [.panicked]

theorem Flight.Follows.stepped {flight : Flight} {activities : List Activity} (steps : Nat)
    (follows : flight.Follows activities) :
    flight.Follows (List.replicate steps .stepped ++ activities) := by
  cases flight with
  | suspended suspension resume =>
    obtain ⟨more, rfl⟩ := follows
    exact ⟨steps + more, List.replicate_append_replicate⟩
  | settled decision =>
    obtain ⟨more, rfl | rfl⟩ := follows
    · exact ⟨steps + more, Or.inl (by rw [← List.append_assoc, List.replicate_append_replicate])⟩
    · exact ⟨steps + more, Or.inr (by rw [← List.append_assoc, List.replicate_append_replicate])⟩

namespace Process

variable (rule : String) (moment : Moment)

theorem continue_mayEnd (process : Process) (decision : Decision)
    (ends : (process.continue rule moment).2.MayEnd rule decision) :
    process.MayEnd rule decision := by
  induction process with
  | settle reached =>
    cases ends
    exact .settle _
  | panic message =>
    cases ends
    exact .panic message
  | wait pause resume ih =>
    -- a process that is not suspended runs on at the same moment
    simp only [Process.continue] at ends
    split at ends
    · obtain ⟨later, ends⟩ := ends
      exact .wait pause resume later decision ends
    · exact .wait pause resume moment decision (ih moment ends)

theorem continue_follows (process : Process) :
    (process.continue rule moment).2.Follows (process.continue rule moment).1 := by
  induction process with
  | settle decision => exact ⟨0, Or.inl rfl⟩
  | panic message => exact ⟨0, Or.inr rfl⟩
  | wait pause resume ih =>
    simp only [Process.continue]
    split
    · exact ⟨1, rfl⟩
    · exact (ih moment).stepped 1

theorem start_mayEnd (process : Process) (decision : Decision)
    (ends : (process.start rule moment).2.MayEnd rule decision) :
    process.MayEnd rule decision := by
  cases process with
  | settle reached => exact continue_mayEnd rule moment (.settle reached) decision ends
  | panic message => exact continue_mayEnd rule moment (.panic message) decision ends
  | wait pause resume =>
    simp only [Process.start] at ends
    split at ends
    · obtain ⟨later, ends⟩ := ends
      exact .wait pause resume later decision ends
    · exact .wait pause resume moment decision (continue_mayEnd rule moment _ decision ends)

theorem start_follows (process : Process) :
    ∃ rest, (process.start rule moment).1 = .called :: rest ∧
      (process.start rule moment).2.Follows rest := by
  cases process with
  | settle decision => exact ⟨_, rfl, continue_follows rule moment (.settle decision)⟩
  | panic message => exact ⟨_, rfl, continue_follows rule moment (.panic message)⟩
  | wait pause resume =>
    simp only [Process.start]
    split
    · exact ⟨[], rfl, 0, rfl⟩
    · exact ⟨_, rfl, continue_follows rule moment (resume moment)⟩

end Process

namespace Flight

variable (rule : String) (moment : Moment)

theorem poll_mayEnd (flight : Flight) (decision : Decision)
    (ends : (flight.poll rule moment).2.MayEnd rule decision) : flight.MayEnd rule decision := by
  cases flight with
  | settled reached => exact ends
  | suspended suspension resume =>
    simp only [Flight.poll] at ends
    split at ends
    · exact ⟨moment, Process.continue_mayEnd rule moment _ decision ends⟩
    · exact ends

theorem poll_follows (flight : Flight) (earlier : List Activity)
    (follows : flight.Follows earlier) :
    (flight.poll rule moment).2.Follows (earlier ++ (flight.poll rule moment).1) := by
  cases flight with
  | settled decision => simpa [Flight.poll] using follows
  | suspended suspension resume =>
    obtain ⟨steps, rfl⟩ := follows
    simp only [Flight.poll]
    split
    · exact (Process.continue_follows rule moment (resume moment)).stepped steps
    · exact ⟨steps, List.append_nil _⟩

theorem poll_settled (decision : Decision) :
    (Flight.settled decision).poll rule moment = ([], .settled decision) :=
  rfl

end Flight

theorem Process.Course.follows {process : Process} {activities : List Activity} {flight : Flight}
    (course : process.Course activities flight) :
    ∃ rest, activities = .called :: rest ∧ flight.Follows rest := by
  induction course with
  | called rule moment => exact process.start_follows rule moment
  | polled activities flight rule moment course ih =>
    obtain ⟨rest, rfl, follows⟩ := ih
    exact ⟨_, rfl, flight.poll_follows rule moment rest follows⟩

namespace Question

def Leads (question : Question) (flight : Flight) : Prop :=
  ∀ decision, flight.MayEnd question.name decision → question.MayEnd decision

def AllLead (questions : RuleId → Question) (memo : Memo) : Prop :=
  ∀ key flight, memo.find? key = some flight → (questions key.rule).Leads flight

variable {question : Question} {id : RuleId} {visit : Visit}

theorem launch_evaluates (question : Question) (id : RuleId) (visit : Visit) (asked : Option Key)
    (state : State) :
    ∃ found, question.Evaluates found (question.launch id asked visit state).1 ∧
      ∀ key : Key, key.request = state.request.id →
        (question.launch id asked visit state).2.trace.activities key =
          state.trace.activities key ++ if asked = some key then found else [] := by
  rcases question.launch_eq id visit asked state with
    ⟨allowed, predicate, launched⟩ | ⟨invoke, invocation, evidence, predicate, started, rfl, launched⟩
  · rw [launched]
    exact ⟨[], .constant allowed predicate, by simp⟩
  · rw [launched]
    refine ⟨_, .custom invoke invocation evidence _ _ _ predicate
      (.called question.name (state.moment visit)), ?_⟩
    intro key own
    dsimp only
    rw [recordAll_activities _ _ _ _ _ (state.record visit _) _ own]
    have calm := state.calm_record visit (.invoking question.name visit.access.site.display) (by simp)
    rw [calm.trace key own]

theorem launch_leads (question : Question) (id : RuleId) (visit : Visit) (key : Option Key)
    (state : State) : question.Leads (question.launch id key visit state).1 := by
  intro decision ends
  rcases question.launch_eq id visit key state with
    ⟨allowed, predicate, launched⟩ | ⟨invoke, invocation, evidence, predicate, started, rfl, launched⟩
  · rw [launched] at ends
    simpa only [MayEnd, predicate, Flight.MayEnd] using ends
  · rw [launched] at ends
    have process := Process.start_mayEnd _ _ _ decision ends
    simpa only [MayEnd, predicate] using ⟨invocation, evidence, _, process⟩

structure Carried (Suits : Question → Flight → Prop) (questions : RuleId → Question)
    (question : Question) (before after : State) (later : Stage) : Prop where
  memo : ∀ key flight, after.request.memo.find? key = some flight →
    Suits (questions key.rule) flight
  own : ∀ flight, later = .own flight → Suits question flight
  settled : before.request.cancelled = false →
    ∀ decision, later = .settled decision → Suits question (.settled decision)

section

variable {Suits : Question → Flight → Prop} {questions : RuleId → Question} {state after : State}

theorem carried_own {flight : Flight} (suits : Suits question flight)
    (all : ∀ key flight, after.request.memo.find? key = some flight →
      Suits (questions key.rule) flight) :
    Carried Suits questions question state after (ownStage flight) := by
  refine ⟨all, fun found same => ?_, fun _ decision same => ?_⟩
  · cases flight <;> cases same
    exact suits
  · cases flight <;> cases same
    exact suits

theorem carried_shared {flight : Flight} (suits : Suits question flight) (key : Key)
    (all : ∀ key flight, after.request.memo.find? key = some flight →
      Suits (questions key.rule) flight) :
    Carried Suits questions question state after (sharedStage key flight) := by
  refine ⟨all, fun found same => ?_, fun _ decision same => ?_⟩
  · cases flight <;> cases same
  · cases flight <;> cases same
    exact suits

theorem Polled.carried {stage later : Stage}
    (launched : ∀ (asked : Option Key) (state : State),
      Suits question (question.launch id asked visit state).1)
    (resumed : ∀ flight moment, Suits question flight →
      Suits question (flight.poll question.name moment).2)
    (polled : question.Polled id visit state stage later after) (named : question = questions id)
    (stands : question.Stands id state.request.id visit.access stage)
    (own : ∀ flight, stage = .own flight → Suits question flight)
    (all : ∀ key flight, state.request.memo.find? key = some flight →
      Suits (questions key.rule) flight) :
    Carried Suits questions question state after later := by
  have keyed {request : RequestId} {key : Key}
      (known : Key.of? question.sharing id request visit.access = some key) :
      questions key.rule = question := by
    rw [(Key.of?_eq_some known).2, named]
  induction polled with
  | cancelled state stage cancelled =>
    -- the fault of a cancelled request is no answer to the question
    refine ⟨all, fun _ same => ?_, fun running => ?_⟩
    · cases same
    · simp [cancelled] at running
  | lost state key missing => exact ⟨all, fun _ same => (by cases same), fun _ _ same => (by cases same)⟩
  | own state flight running => exact carried_own (resumed _ _ (own flight rfl)) all
  | shared state key flight running found =>
    -- the flight was launched by a leaf of the same identity, so it belongs to this question
    have suits : Suits question (question.resume id (some key) visit flight state).1 :=
      resumed _ _ (keyed stands ▸ all key flight found)
    apply carried_shared suits key
    intro other kept member
    rw [State.withMemo_memo, Memo.find?_replace] at member
    split at member
    · next same =>
      obtain ⟨_, _, rfl⟩ := Option.map_eq_some_iff.mp member
      rw [same, keyed stands]
      exact suits
    · exact all other kept member
  | joined state looked stage later after key running known calm still polled ih =>
    have carried := ih (calm.id ▸ known) (fun _ same => (by cases same))
      (fun other flight found => all other flight (calm.memo other ▸ found))
    exact ⟨carried.memo, carried.own, fun running => carried.settled (still.trans running)⟩
  | launched state looked stage key running known missing calm still =>
    apply carried_shared (launched (some key) looked) key
    intro other kept member
    rw [State.withMemo_memo, Memo.find?_insert _ _ _ _ missing] at member
    split at member
    · next same =>
      cases member
      rw [same, keyed known]
      exact launched (some key) looked
    · exact all other kept (calm.memo other ▸ member)
  | alone state stage running unknown =>
    exact carried_own (launched none state) (by simpa using all)

end

structure Led (questions : RuleId → Question) (question : Question) (before after : State)
    (later : Stage) : Prop where
  memo : AllLead questions after.request.memo
  own : ∀ flight, later = .own flight → question.Leads flight
  settled : before.request.cancelled = false →
    ∀ decision, later = .settled decision → question.MayEnd decision

theorem Polled.led {questions : RuleId → Question} {state after : State} {stage later : Stage}
    (polled : question.Polled id visit state stage later after) (named : question = questions id)
    (stands : question.Stands id state.request.id visit.access stage)
    (own : ∀ flight, stage = .own flight → question.Leads flight)
    (all : AllLead questions state.request.memo) :
    Led questions question state after later := by
  have resumed (flight : Flight) (moment : Moment) (leads : question.Leads flight) :
      question.Leads (flight.poll question.name moment).2 :=
    fun decision ends => leads decision (flight.poll_mayEnd _ _ decision ends)
  have carried := polled.carried (question.launch_leads id visit) resumed named stands own all
  refine ⟨carried.memo, carried.own, fun running decision same => ?_⟩
  exact carried.settled running decision same decision rfl

end Question

end FieldGuard
