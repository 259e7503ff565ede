import FieldGuard.Proofs.Punctuality
import FieldGuard.Proofs.Sessions

set_option autoImplicit false

namespace FieldGuard

namespace World

def Live (world : World) (name : String) : Prop :=
  ∃ entry, world.find? name = some entry ∧ world.isFired entry.token = false

theorem keep_now (world : World) (name : String) (entry : OpenRequest) (state : State) :
    (world.keep name entry state).now = world.now := by
  cases cancelled : state.request.cancelled with
  | false => simp [keep, cancelled]
  | true =>
    simp only [keep, cancelled, if_true, fire]
    split <;> rfl

theorem live_keep {world : World} {name : String} {entry : OpenRequest} {state : State}
    (found : world.find? name = some entry) (unfired : world.isFired entry.token = false)
    (running : state.request.cancelled = false) : (world.keep name entry state).Live name :=
  ⟨⟨entry.token, state.request⟩, by simp [find?_keep _ _ _ _ found],
    by simp [isFired_keep, running, unfired]⟩

end World

/-- How the caller of an evaluation is answered whose time is up at the deadline. -/
def Ending.answer (deadline : Nat) : Option Ending → Nat × Answer
  | some ending => (ending.time, .decision ending.decision)
  | none => (deadline, .timedOut)

def TaskState.reached (deadline now : Nat) : Stage → TaskState
  | .settled decision => .finished now (.decision decision)
  | waiting =>
      if deadline ≤ now then .finished now .timedOut else .running deadline (.evaluation waiting)

theorem TaskState.reached_waiting (deadline now : Nat) (stage : Stage)
    (waiting : stage.decision? = none) :
    TaskState.reached deadline now stage =
      if deadline ≤ now then .finished now .timedOut else .running deadline (.evaluation stage) := by
  cases stage <;> first | rfl | cases waiting

theorem Question.delayed_takes (duration : Nat) (answer : Decision) :
    (Question.delayed duration answer).unshared.Takes (some ⟨duration, answer⟩) :=
  fun _ _ _ => .sleep duration _ (some ⟨0, answer⟩) fun _ => .settle answer

namespace Tasks

/-- However long the tasks are run, they are answered so. -/
def Ends (tasks : Tasks) (world : World) (given : List (Nat × Answer)) : Prop :=
  ∃ rounds, ∀ more, rounds ≤ more → (tasks.run more world).1.answers = given

theorem Ends.next {tasks later : Tasks} {world after : World} {given : List (Nat × Answer)}
    (onward : ∀ rounds, tasks.run (rounds + 1) world = later.run rounds after)
    (ends : Ends later after given) : Ends tasks world given := by
  obtain ⟨rounds, same⟩ := ends
  refine ⟨rounds + 1, fun more enough => ?_⟩
  obtain ⟨more, rfl⟩ := Nat.exists_eq_add_of_le enough
  rw [Nat.add_right_comm, onward]
  exact same _ (Nat.le_add_right rounds more)

theorem Ends.congr {tasks others : Tasks} {world : World} {given : List (Nat × Answer)}
    (alike : ∀ rounds, tasks.run (rounds + 1) world = others.run (rounds + 1) world)
    (ends : Ends others world given) : Ends tasks world given := by
  obtain ⟨rounds, same⟩ := ends
  refine ⟨rounds + 1, fun more enough => ?_⟩
  obtain ⟨more, rfl⟩ := Nat.exists_eq_add_of_le' enough
  rw [← Nat.add_assoc, alike]
  exact same _ (by omega)

theorem Ends.last {tasks : Tasks} {world : World} {given : List (Nat × Answer)}
    (ended : ∀ rounds, (tasks.run (rounds + 1) world).1.answers = given) :
    Ends tasks world given := by
  refine ⟨1, fun more enough => ?_⟩
  obtain ⟨more, rfl⟩ := Nat.exists_eq_add_of_le' enough
  exact ended more

variable (takes : RuleId → Option Ending) (precedence : Precedence) (rule : Rule) (start : Nat)

structure Waits (name : String) (work : Work) (world : World) : Prop where
  live : world.Live name
  unfinished : ∀ answer, work ≠ .done answer
  unsettled : work.stage.decision? = none
  ready : rule.Ready precedence takes world.now start work.stage

structure Kept (name : String) (work : Work) (world : World) (later : Stage) (after : World) :
    Prop where
  now : after.now = world.now
  live : after.Live name
  paces : rule.Paces precedence takes world.now start later
  prompt : ∀ decision, later = .settled decision →
    rule.ending precedence takes start = some ⟨world.now, decision⟩
  spent : Spent world.now (rule.awaited work.stage) (rule.awaited later) world.trace after.trace

variable {takes precedence rule start} {name : String} {work : Work} {world : World}

theorem Waits.poll (waits : Waits takes precedence rule start name work world)
    (timed : rule.Timed takes) (untied : rule.Untied precedence takes start) (access : FieldAccess) :
    ∃ later after, Kept takes precedence rule start name work world later after ∧
      (Action.evaluate rule precedence access).poll name work world = (.ofStage later, after) := by
  obtain ⟨⟨entry, found, unfired⟩, unfinished, unsettled, ready⟩ := waits
  let visit : Visit := { now := world.now, access, precedence, span := none }
  have running : (world.view entry).request.cancelled = false := unfired
  obtain ⟨paces, prompt, spent⟩ := rule.poll_punctual visit timed start work.stage
    (world.view entry) untied ready running
  have still := (rule.poll_cancelled_eq visit work.stage (world.view entry)).trans running
  refine ⟨(rule.poll visit work.stage (world.view entry)).1,
    world.keep name entry (rule.poll visit work.stage (world.view entry)).2,
    ⟨world.keep_now name entry _, World.live_keep found unfired still, paces, ?_, ?_⟩, ?_⟩
  · intro decision settled
    rcases prompt decision settled with same | reached
    · rw [same] at unsettled
      cases unsettled
    · exact reached
  · rw [(world.keep_frame name entry _).2.2]
    exact spent
  · rw [Action.poll_present name _ work world rfl unfinished entry found]
    simp only [Action.call, Call.poll_evaluate _ _ _ _ _ _ unfinished]
    rfl

def remaining (deadline : Nat) (rule : Rule) (work : Work) (world : World) : Nat ×ₗ (Nat ×ₗ Nat) :=
  toLex (deadline - world.now, loadOf world.now (rule.awaited work.stage))

section

variable {later : Stage} {after : World}
  (kept : Kept takes precedence rule start name work world later after)
  (unsettled : later.decision? = none)

include kept unsettled

theorem Kept.again (deadline : Nat) (grown : world.trace.length < after.trace.length) :
    Waits takes precedence rule start name (.evaluation later) after ∧
      remaining deadline rule (.evaluation later) after < remaining deadline rule work world := by
  refine ⟨⟨kept.live, by simp, unsettled, Or.inr (kept.now ▸ kept.paces)⟩, ?_⟩
  rw [remaining, remaining, kept.now]
  exact Prod.Lex.toLex_lt_toLex.mpr (Or.inr ⟨rfl, kept.spent.spent grown⟩)

theorem Kept.moved (memo : Memo) (deadline instant : Nat)
    (quiet : ¬ world.trace.length < after.trace.length) (moves : world.now < instant)
    (soon : instant ≤ deadline)
    (soonest : ∀ other ∈ later.deadlines memo, world.now < other → instant ≤ other) :
    Waits takes precedence rule start name (.evaluation later) { after with now := instant } ∧
      remaining deadline rule (.evaluation later) { after with now := instant } <
        remaining deadline rule work world := by
  have same : after.trace.length = world.trace.length :=
    Nat.le_antisymm (Nat.le_of_not_lt quiet) kept.spent.grown
  refine ⟨⟨kept.live, by simp, unsettled, Or.inr ?_⟩, ?_⟩
  · exact kept.paces.wait instant moves.le memo (kept.spent.still same) soonest
  · have nearer : deadline - instant < deadline - world.now := by omega
    exact Prod.Lex.toLex_lt_toLex.mpr (Or.inl nearer)

end

def lone (name : String) (timeout : Nat) (rule : Rule) (precedence : Precedence)
    (access : FieldAccess) : Task :=
  { request := name, delay := 0, timeout, action := .evaluate rule precedence access }

section

variable {timeout deadline : Nat} {access : FieldAccess} {later : Stage} {after : World}

variable (timeout deadline) in
theorem round_lone (now : after.now = world.now)
    (polled : (Action.evaluate rule precedence access).poll name work world =
      (.ofStage later, after)) :
    Tasks.round [(lone name timeout rule precedence access, .running deadline work)] world =
      ([(lone name timeout rule precedence access, .reached deadline world.now later)], after) := by
  have ran : (lone name timeout rule precedence access).run deadline work world =
      (.reached deadline world.now later, after) := by
    rw [Task.run_eq]
    simp only [lone, polled, now]
    cases later with
    | settled decision => rfl
    | _ =>
      simp only [Work.ofStage, TaskState.reached]
      split <;> rfl
  simp only [round, Task.poll, ran]

variable (later) in
theorem nextInstant?_lone (task : Task) (early : after.now < deadline) :
    ∃ instant, nextInstant? [(task, .running deadline (.evaluation later))] after = some instant ∧
      after.now < instant ∧ instant ≤ deadline ∧
        ∀ other ∈ later.deadlines (memoOf after task.request), after.now < other → instant ≤ other := by
  have listed : Tasks.deadlines [(task, .running deadline (.evaluation later))] after =
      deadline :: later.deadlines (memoOf after task.request) := by
    simp [deadlines, TaskState.deadlines, Work.deadlines]
  unfold nextInstant?
  rw [listed]
  generalize later.deadlines (memoOf after task.request) = others
  cases found : ((deadline :: others).filter (after.now < ·)).min? with
  | none => simp [early] at found
  | some instant =>
    obtain ⟨member, least⟩ := List.min?_eq_some_iff.mp found
    simp only [List.mem_filter, List.mem_cons, decide_eq_true_eq] at member least
    refine ⟨instant, rfl, member.2, least deadline ⟨Or.inl rfl, early⟩, ?_⟩
    exact fun other inside due => least other ⟨Or.inr inside, due⟩

theorem run_lone (timed : rule.Timed takes) (untied : rule.Untied precedence takes start)
    (before : ∀ ending, rule.ending precedence takes start = some ending → ending.time < deadline)
    (waits : Waits takes precedence rule start name work world) (early : world.now ≤ deadline) :
    Ends [(lone name timeout rule precedence access, .running deadline work)] world
      [Ending.answer deadline (rule.ending precedence takes start)] := by
  -- every round takes something from what there is left to do
  generalize size : remaining deadline rule work world = measure
  induction measure using WellFoundedLT.induction generalizing work world with
  | ind measure ih =>
    subst size
    obtain ⟨later, after, kept, polled⟩ := waits.poll timed untied access
    have round := round_lone timeout deadline kept.now polled
    rcases later.settled_or_waiting with ⟨decision, rfl⟩ | unsettled
    · refine .last fun rounds => ?_
      rw [kept.prompt decision rfl, run, round]
      rfl
    rw [TaskState.reached_waiting _ _ later unsettled] at round
    by_cases due : deadline ≤ world.now
    · rw [if_pos due] at round
      have never : rule.ending precedence takes start = none := by
        cases known : rule.ending precedence takes start with
        | none => rfl
        | some ending =>
          have late := kept.paces.due unsettled ending known
          have soon := before ending known
          omega
      refine .last fun rounds => ?_
      obtain rfl := Nat.le_antisymm early due
      rw [never, run, round]
      simp [areFinished, TaskState.isFinished, answers, Ending.answer]
    rw [if_neg due] at round
    by_cases grown : world.trace.length < after.trace.length
    · obtain ⟨onward, fewer⟩ := kept.again unsettled deadline grown
      refine .next (fun rounds => ?_) (ih _ fewer onward (kept.now ▸ early) rfl)
      simp [run, round, areFinished, TaskState.isFinished, progress, finishedCount, grown]
    · -- nothing happened, so the clock moves on
      obtain ⟨instant, next, moves, soon, soonest⟩ := nextInstant?_lone later
        (lone name timeout rule precedence access) (kept.now ▸ Nat.lt_of_not_le due)
      rw [kept.now] at moves soonest
      obtain ⟨onward, fewer⟩ := kept.moved unsettled _ deadline instant grown moves soon soonest
      refine .next (fun rounds => ?_) (ih _ fewer onward soon rfl)
      simp [run, round, areFinished, TaskState.isFinished, progress, finishedCount, grown, next]

end

/-- An evaluation alone is answered with the decision of its rule, at the instant at which its rule
ends, and never if its rule does not end. -/
theorem evaluate_ends (live : world.Live name) (timed : rule.Timed takes)
    (untied : rule.Untied precedence takes world.now) (timeout : Nat)
    (before : ∀ ending, rule.ending precedence takes world.now = some ending →
      ending.time < world.now + timeout)
    (access : FieldAccess) :
    Ends (Tasks.start [lone name timeout rule precedence access] world) world
      [Ending.answer (world.now + timeout) (rule.ending precedence takes world.now)] := by
  have waits : Waits takes precedence rule world.now name .fresh world :=
    ⟨live, by simp, rfl, Or.inl ⟨rfl, rfl⟩⟩
  -- without a delay the task runs in its first round
  have begun (rounds : Nat) :
      Tasks.run (rounds + 1) (Tasks.start [lone name timeout rule precedence access] world) world =
        Tasks.run (rounds + 1)
          [(lone name timeout rule precedence access, .running (world.now + timeout) .fresh)] world := by
    simp [run, Tasks.start, round, Task.poll, lone, progress, finishedCount, TaskState.isFinished]
  exact .congr begun (run_lone timed untied before waits (Nat.le_add_right world.now timeout))

theorem evaluate_ends_negated :
    let late := Decision.deny (some "late")
    let soon := Decision.deny (some "soon")
    let leaf := fun id duration answer => Rule.leaf id (Question.delayed duration answer).unshared
    let chain := Rule.group 3 .chain [leaf 4 5 .allow, .not 6 (leaf 5 10 soon)]
    let rule := Rule.group 1 .and [leaf 2 30 late, .not 7 chain]
    let takes := fun id : RuleId =>
      if id = 2 then some ⟨30, late⟩ else some (if id = 4 then ⟨5, .allow⟩ else ⟨10, soon⟩)
    let guard : Guard := ⟨⟨[], [], none, .deny, .constant 0 false⟩, .standard⟩
    let world := (World.start guard).openRequest "request" .null none
    world.Live "request" ∧ rule.Timed takes ∧ rule.Untied .last takes world.now ∧
      chain.ending .last takes world.now = some ⟨15, .allow⟩ ∧
      rule.ending .last takes world.now = some ⟨15, .deny none⟩ ∧
      Ends (Tasks.start [lone "request" 100 rule .last (.bare "Query" "report")] world) world
        [(15, .decision (.deny none))] := by
  -- The chain allows after both of its operands have taken their time, as a refusal below a
  -- negation is an allowance. Its own negation refuses then, before the other operand of the group
  -- does.
  intro late soon leaf chain rule takes guard world
  have live : world.Live "request" := ⟨⟨.own 1, Request.start 1 .null⟩, rfl, rfl⟩
  have timed : rule.Timed takes := by
    intro one member
    simp only [rule, chain, leaf, Rule.leaves, Rule.leavesOf, List.cons_append, List.nil_append,
      List.append_nil, List.mem_cons, List.not_mem_nil, or_false] at member
    rcases member with rfl | rfl | rfl <;> exact ⟨rfl, Question.delayed_takes _ _⟩
  have allows : chain.ending .last takes world.now = some ⟨15, .allow⟩ := by decide
  have ending : rule.ending .last takes world.now = some ⟨15, .deny none⟩ := by decide
  have untied : rule.Untied .last takes world.now := by
    have operands : Rule.endings .last takes [leaf 2 30 late, .not 7 chain] world.now =
        [some ⟨30, late⟩, some ⟨15, .deny none⟩] := by decide
    refine ⟨⟨trivial, ⟨trivial, fun _ _ => ⟨trivial, fun _ _ => trivial⟩⟩, trivial⟩, ?_⟩
    rw [operands]
    intro first second one other _ _ same
    simp only [List.mem_cons, Option.some.injEq, List.not_mem_nil, or_false] at one other
    rcases one with rfl | rfl <;> rcases other with rfl | rfl <;> first | rfl | cases same
  refine ⟨live, timed, untied, allows, ending, ?_⟩
  have ends := evaluate_ends live timed untied 100 (fun other known => ?_) (.bare "Query" "report")
  · rwa [ending] at ends
  · rw [ending] at known
    cases known
    decide

end Tasks

end FieldGuard
