import FieldGuard.Proofs.Records
import FieldGuard.Proofs.Timing
import Mathlib.Algebra.Order.Monoid.Prod
import Mathlib.Algebra.Order.Ring.Nat

set_option autoImplicit false

namespace FieldGuard

def Process.depth (moment : Moment) : Process → Nat
  | .settle _ | .panic _ => 0
  | .wait _ resume => (resume moment).depth moment + 1

namespace Flight

def Runs (rule : String) (now : Nat) (flight : Flight) (ending : Option Ending) : Prop :=
  match flight with
  | .settled decision => ending = some ⟨now, decision⟩
  | .suspended suspension resume =>
      match suspension with
      | .asleep deadline => now ≤ deadline ∧ ∃ rest,
          (∀ later, (resume ⟨later, false⟩).Takes rule rest) ∧ ending = rest.map (·.after deadline)
      | .yielded => ∃ rest,
          (∀ later, (resume ⟨later, false⟩).Takes rule rest) ∧ ending = rest.map (·.after now)
      | .forever | .cancellation => ending = none

def load (now : Nat) : Flight → Nat
  | .settled _ => 0
  | .suspended _ resume => (resume ⟨now, false⟩).depth ⟨now, false⟩ + 1

def Rests (now : Nat) : Flight → Prop
  | .settled _ => False
  | .suspended suspension _ => suspension.isOver ⟨now, false⟩ = false

variable {rule : String} {now : Nat}

theorem continue_runs {process : Process} {rest : Option Ending} (takes : process.Takes rule rest) :
    (process.continue rule ⟨now, false⟩).2.Runs rule now (rest.map (·.after now)) := by
  induction takes with
  | settle decision => rfl
  | panic message => rfl
  | forever resume => rfl
  | cancellation resume => rfl
  | yield resume rest onward ih => exact ⟨rest, onward, rfl⟩
  | sleep duration resume rest onward ih =>
    by_cases brief : duration = 0
    · -- a pause of no length is over at once
      subst brief
      have same : (rest.map (·.after 0)).map (·.after now) = rest.map (·.after now) := by
        cases rest <;> simp [Ending.after]
      rw [same]
      simpa [Process.continue, Pause.start] using ih now
    · have same : (rest.map (·.after duration)).map (·.after now) =
          rest.map (·.after (now + duration)) := by
        cases rest <;> simp [Ending.after_after]
      rw [same]
      simp only [Process.continue, Pause.start, brief, if_false]
      exact ⟨Nat.le_add_right now duration, rest, onward, rfl⟩

theorem start_runs {process : Process} {rest : Option Ending} (takes : process.Takes rule rest) :
    (process.start rule ⟨now, false⟩).2.Runs rule now (rest.map (·.after now)) := by
  have same : (process.start rule ⟨now, false⟩).2 = (process.continue rule ⟨now, false⟩).2 := by
    cases process with
    | wait pause resume =>
      simp only [Process.start, Process.continue]
      split <;> rfl
    | _ => rfl
  rw [same]
  exact continue_runs takes

theorem poll_runs {flight : Flight} {ending : Option Ending} (runs : flight.Runs rule now ending) :
    (flight.poll rule ⟨now, false⟩).2.Runs rule now ending := by
  cases flight with
  | settled decision => exact runs
  | suspended suspension resume =>
    cases suspension with
    | forever => exact runs
    | cancellation => exact runs
    | yielded =>
      obtain ⟨rest, onward, rfl⟩ := runs
      exact continue_runs (onward now)
    | asleep deadline =>
      obtain ⟨due, rest, onward, rfl⟩ := runs
      by_cases ended : deadline ≤ now
      · obtain rfl := Nat.le_antisymm ended due
        simpa [Flight.poll, Suspension.isOver] using continue_runs (onward deadline)
      · simp only [Flight.poll, Suspension.isOver, ended, decide_false, Bool.false_eq_true, if_false]
        exact ⟨due, rest, onward, rfl⟩

theorem Runs.due {flight : Flight} {ending : Ending} (runs : flight.Runs rule now (some ending)) :
    now ≤ ending.time := by
  cases flight with
  | settled decision =>
    cases runs
    exact Nat.le_refl now
  | suspended suspension resume =>
    cases suspension with
    | forever => cases runs
    | cancellation => cases runs
    | yielded =>
      obtain ⟨rest, _, same⟩ := runs
      obtain ⟨other, _, rfl⟩ := Option.map_eq_some_iff.mp same.symm
      exact Nat.le_add_right now other.time
    | asleep deadline =>
      obtain ⟨due, rest, _, same⟩ := runs
      obtain ⟨other, _, rfl⟩ := Option.map_eq_some_iff.mp same.symm
      exact due.trans (Nat.le_add_right deadline other.time)

theorem Runs.wait {flight : Flight} {ending : Option Ending} (runs : flight.Runs rule now ending)
    (rests : flight.Rests now) (next : Nat)
    (soonest : ∀ deadline, flight.deadline? = some deadline → now < deadline → next ≤ deadline) :
    flight.Runs rule next ending := by
  cases flight with
  | settled decision => cases rests
  | suspended suspension resume =>
    cases suspension with
    | forever => exact runs
    | cancellation => exact runs
    | yielded => cases rests
    | asleep deadline =>
      obtain ⟨due, rest, onward, same⟩ := runs
      have later : now < deadline := by simpa [Rests, Suspension.isOver] using rests
      exact ⟨soonest deadline rfl later, rest, onward, same⟩

variable (rule now) in
theorem continue_load (process : Process) :
    (process.continue rule ⟨now, false⟩).2.load now ≤ process.depth ⟨now, false⟩ ∧
      (process.continue rule ⟨now, false⟩).1 ≠ [] := by
  induction process with
  | settle decision => exact ⟨Nat.le_refl 0, by simp [Process.continue]⟩
  | panic message => exact ⟨Nat.le_refl 0, by simp [Process.continue]⟩
  | wait pause resume ih =>
    simp only [Process.continue]
    split
    · exact ⟨Nat.le_refl _, by simp⟩
    · exact ⟨Nat.le_succ_of_le (ih ⟨now, false⟩).1, by simp⟩

theorem poll_load (flight : Flight) (waiting : flight.decision? = none) :
    ((flight.poll rule ⟨now, false⟩).1 ≠ [] ∧
        (flight.poll rule ⟨now, false⟩).2.load now < flight.load now) ∨
      (flight.poll rule ⟨now, false⟩) = ([], flight) ∧ flight.Rests now := by
  cases flight with
  | settled decision => cases waiting
  | suspended suspension resume =>
    simp only [Flight.poll]
    cases ended : suspension.isOver ⟨now, false⟩ with
    | true =>
      obtain ⟨lighter, noisy⟩ := continue_load rule now (resume ⟨now, false⟩)
      exact Or.inl ⟨by simpa using noisy, by simpa [load] using Nat.lt_succ_of_le lighter⟩
    | false => exact Or.inr ⟨by simp, ended⟩

end Flight

def Stage.Still (now : Nat) : Stage → Prop
  | .fresh => True
  | .own flight => flight.Rests now
  | _ => False

def Stage.load (now : Nat) : Stage → Nat ×ₗ Nat
  | .own flight => toLex (0, flight.load now)
  | _ => toLex (1, 0)

def loadOf (now : Nat) (entries : List (RuleId × Question × Stage)) : Nat ×ₗ Nat :=
  (entries.map fun entry => entry.2.2.load now).sum

/-- A poll leaves records only where it uses up some of what its leaves may do; where it leaves
none, they rest. -/
structure Spent (now : Nat) (before after : List (RuleId × Question × Stage))
    (trace later : Trace) : Prop where
  grown : trace.length ≤ later.length
  lighter : loadOf now after ≤ loadOf now before
  spent : trace.length < later.length → loadOf now after < loadOf now before
  still : later.length = trace.length → ∀ entry ∈ after, entry.2.2.Still now

namespace Spent

variable {now : Nat} {before after others behind : List (RuleId × Question × Stage)}
  {trace later final : Trace}

theorem loadOf_append (now : Nat) (entries others : List (RuleId × Question × Stage)) :
    loadOf now (entries ++ others) = loadOf now entries + loadOf now others := by
  simp [loadOf]

theorem rested (lighter : loadOf now after ≤ loadOf now before)
    (still : ∀ entry ∈ after, entry.2.2.Still now) : Spent now before after trace trace :=
  ⟨Nat.le_refl _, lighter, fun grown => absurd grown (Nat.lt_irrefl _), fun _ => still⟩

theorem stepped (lighter : loadOf now after < loadOf now before)
    (grown : trace.length < later.length) : Spent now before after trace later :=
  ⟨grown.le, lighter.le, fun _ => lighter, fun same => absurd same grown.ne'⟩

theorem append (first : Spent now before after trace later)
    (second : Spent now others behind later final) :
    Spent now (before ++ others) (after ++ behind) trace final where
  grown := first.grown.trans second.grown
  lighter := by
    rw [loadOf_append, loadOf_append]
    exact add_le_add first.lighter second.lighter
  spent := by
    intro grown
    rw [loadOf_append, loadOf_append]
    rcases first.grown.lt_or_eq with own | same
    · exact add_lt_add_of_lt_of_le (first.spent own) second.lighter
    · exact add_lt_add_of_le_of_lt first.lighter (second.spent (same ▸ grown))
  still := by
    intro quiet entry member
    have first' := first.grown
    have second' := second.grown
    rcases List.mem_append.mp member with own | other
    · exact first.still (by omega) entry own
    · exact second.still (by omega) entry other

theorem loadOf_le_append (now : Nat) (entries others : List (RuleId × Question × Stage)) :
    loadOf now entries ≤ loadOf now (entries ++ others) := by
  rw [loadOf_append]
  exact le_add_of_nonneg_right bot_le

theorem drop {wider : List (RuleId × Question × Stage)} (spent : Spent now before after trace later)
    (heavier : loadOf now before ≤ loadOf now wider) : Spent now wider [] trace later where
  grown := spent.grown
  lighter := bot_le
  spent := fun grown => lt_of_le_of_lt bot_le ((spent.spent grown).trans_le heavier)
  still := by simp

end Spent

namespace Question

variable {question : Question} {id : RuleId} {visit : Visit} {state : State}

theorem poll_own (flight : Flight) (running : state.request.cancelled = false) :
    question.poll id visit (.own flight) state =
      (ownStage (flight.poll question.name ⟨visit.now, false⟩).2,
        state.recordAll visit
          (question.activities id none (flight.poll question.name ⟨visit.now, false⟩).1)) := by
  simp [poll, pollOwn, resume_eq, State.moment, running]

theorem poll_fresh (unshared : question.sharing = .none) (running : state.request.cancelled = false) :
    question.poll id visit .fresh state =
      (ownStage (question.launch id none visit state).1, (question.launch id none visit state).2) := by
  simp [poll, begin, Key.of?, unshared, running]

theorem launch_runs {ending : Option Ending} (takes : question.Takes ending)
    (running : state.request.cancelled = false) :
    (question.launch id none visit state).1.Runs question.name visit.now
      (ending.map (·.after visit.now)) := by
  unfold Takes at takes
  rcases question.launch_eq id visit none state with
    ⟨allowed, predicate, launched⟩ | ⟨invoke, invocation, evidence, predicate, started, rfl, launched⟩
  · rw [launched]
    simp only [predicate] at takes
    subst takes
    rfl
  · rw [launched]
    simp only [predicate] at takes
    have moment : state.moment visit = ⟨visit.now, false⟩ := by simp [State.moment, running]
    rw [moment]
    exact Flight.start_runs (takes invocation evidence visit.now)

variable (question id) in
theorem awaited_ownStage (flight : Flight) :
    (Rule.leaf id question).awaited (ownStage flight) = [] ∨
      (Rule.leaf id question).awaited (ownStage flight) = [(id, question, .own flight)] := by
  cases flight with
  | settled decision => exact Or.inl rfl
  | suspended suspension resume => exact Or.inr rfl

variable (question id) in
theorem loadOf_ownStage (now : Nat) (flight : Flight) :
    loadOf now ((Rule.leaf id question).awaited (ownStage flight)) ≤ toLex (0, flight.load now) := by
  rcases awaited_ownStage question id flight with ended | waiting
  · rw [ended]
    exact bot_le
  · rw [waiting]
    simp [loadOf, Stage.load]

variable (question id visit state) in
theorem poll_fresh_spent (unshared : question.sharing = .none)
    (running : state.request.cancelled = false) :
    Spent visit.now [(id, question, .fresh)]
      ((Rule.leaf id question).awaited (question.poll id visit .fresh state).1)
      state.trace (question.poll id visit .fresh state).2.trace := by
  rw [poll_fresh unshared running]
  rcases question.launch_eq id visit none state with
    ⟨allowed, predicate, launched⟩ | ⟨invoke, invocation, evidence, predicate, started, same, launched⟩
  · -- a constant settles at once, and leaves no record
    rw [launched]
    exact .rested bot_le (by simp [ownStage, Rule.awaited_settled])
  · rw [launched]
    refine .stepped (lt_of_le_of_lt (loadOf_ownStage question id visit.now _) ?_) ?_
    · simp [loadOf, Stage.load, Prod.Lex.toLex_lt_toLex]
    · simp only [State.recordAll, State.record, List.length_append, List.length_cons]
      omega

variable (question id visit state) in
theorem poll_own_spent (flight : Flight) (waiting : flight.decision? = none)
    (running : state.request.cancelled = false) :
    Spent visit.now [(id, question, .own flight)]
      ((Rule.leaf id question).awaited (question.poll id visit (.own flight) state).1)
      state.trace (question.poll id visit (.own flight) state).2.trace := by
  rw [poll_own flight running]
  rcases flight.poll_load waiting with ⟨noisy, lighter⟩ | ⟨same, rests⟩
  · refine .stepped (lt_of_le_of_lt (loadOf_ownStage question id visit.now _) ?_) ?_
    · simpa [loadOf, Stage.load, Prod.Lex.toLex_lt_toLex] using lighter
    · simpa [State.recordAll, activities, List.length_pos_iff] using noisy
  · rw [same]
    have quiet : state.recordAll visit (question.activities id none []) = state := by
      simp [State.recordAll, activities]
    rw [quiet]
    rcases awaited_ownStage question id flight with ended | waiting
    · rw [ended]
      exact .rested bot_le (by simp)
    · rw [waiting]
      exact .rested le_rfl (by simpa [Stage.Still] using rests)

end Question

end FieldGuard
