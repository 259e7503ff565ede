import FieldGuard.Proofs.Answers
import FieldGuard.Proofs.Flights
import Mathlib.Data.List.MinMax
import Mathlib.Data.List.ReduceOption

set_option autoImplicit false

namespace FieldGuard

structure Ending where
  time : Nat
  decision : Decision
  deriving DecidableEq

namespace Ending

def after (delay : Nat) (ending : Ending) : Ending :=
  { ending with time := delay + ending.time }

/-- A refusal loses its reason, and a fault stays what it is. -/
def negate : Ending → Ending
  | ⟨time, .allow⟩ => ⟨time, .deny none⟩
  | ⟨time, .deny _⟩ => ⟨time, .allow⟩
  | ⟨time, .error fault⟩ => ⟨time, .error fault⟩

theorem negate_eq (ending : Ending) : ending.negate = ⟨ending.time, ending.decision.negate⟩ := by
  obtain ⟨time, decision⟩ := ending
  cases decision <;> rfl

def earliest (endings : List Ending) : Option Ending := endings.argmin time

def latest (start : Nat) : List Ending → Nat
  | [] => start
  | ending :: rest => max ending.time (latest start rest)

/-- How a group ends whose operands all begin at once: with the earliest ending that is decisive,
and else, when all operands have ended, with a conclusion from them. -/
def concurrent (decisive : Decision → Bool) (conclude : List Ending → Decision) (start : Nat)
    (endings : List (Option Ending)) : Option Ending :=
  match earliest (endings.reduceOption.filter fun ending => decisive ending.decision) with
  | some ending => some ending
  | none =>
      if none ∈ endings then none
      else some ⟨latest start endings.reduceOption, conclude endings.reduceOption⟩

end Ending

namespace Rule

variable (precedence : Precedence) (takes : RuleId → Option Ending)

mutual

/-- How a rule ends that begins at this instant, where every leaf takes a fixed time to a fixed
decision, or never ends. -/
def ending : Rule → Nat → Option Ending
  | .leaf id _, start => (takes id).map (·.after start)
  | .not _ operand, start => (operand.ending start).map Ending.negate
  | .group _ .chain operands, start => endingInTurn operands start
  | .group _ .and operands, start =>
      Ending.concurrent (fun decision => !decision.isAllowed) (fun _ => .allow) start
        (endings operands start)
  | .group _ .or operands, start =>
      Ending.concurrent Decision.isAllowed
        (fun refusals =>
          let reported := match precedence with
            | .last => refusals.getLast?
            | .first => refusals.head?
          (reported.map Ending.decision).getD (.deny none))
        start (endings operands start)
  | .group _ .race operands, start =>
      Ending.concurrent Decision.isAllowed
        (fun refusals => ((Ending.earliest refusals).map Ending.decision).getD (.deny none)) start
        (endings operands start)

def endingInTurn : List Rule → Nat → Option Ending
  | [], start => some ⟨start, .allow⟩
  | rule :: rest, start =>
      match rule.ending start with
      | some ⟨time, .allow⟩ => endingInTurn rest time
      | other => other

def endings : List Rule → Nat → List (Option Ending)
  | [], _ => []
  | rule :: rest, start => rule.ending start :: endings rest start

end

end Rule

/-- Refusals at the same instant do not differ. -/
def Ending.NoTies (endings : List (Option Ending)) : Prop :=
  ∀ first second, some first ∈ endings → some second ∈ endings →
    first.decision.isAllowed = false → second.decision.isAllowed = false →
      first.time = second.time → first = second

namespace Rule

variable (precedence : Precedence) (takes : RuleId → Option Ending)

mutual

/-- Wherever the time of a refusal decides which one is reported, there are no ties. -/
def Untied : Rule → Nat → Prop
  | .leaf _ _, _ => True
  | .not _ operand, start => operand.Untied start
  | .group _ .chain operands, start => UntiedInTurn operands start
  | .group _ .or operands, start => UntiedAtOnce operands start
  | .group _ .and operands, start | .group _ .race operands, start =>
      UntiedAtOnce operands start ∧ Ending.NoTies (endings precedence takes operands start)

def UntiedInTurn : List Rule → Nat → Prop
  | [], _ => True
  | rule :: rest, start =>
      rule.Untied start ∧
        ∀ time, rule.ending precedence takes start = some ⟨time, .allow⟩ → UntiedInTurn rest time

def UntiedAtOnce : List Rule → Nat → Prop
  | [], _ => True
  | rule :: rest, start => rule.Untied start ∧ UntiedAtOnce rest start

end

end Rule

inductive Process.Takes (rule : String) : Process → Option Ending → Prop
  | settle (decision : Decision) : Takes rule (.settle decision) (some ⟨0, decision⟩)
  | panic (message : String) :
      Takes rule (.panic message) (some ⟨0, .error (.panicked rule message)⟩)
  | sleep (duration : Nat) (resume : Moment → Process) (rest : Option Ending)
      (onward : ∀ now, Takes rule (resume ⟨now, false⟩) rest) :
      Takes rule (.wait (.sleep duration) resume) (rest.map (·.after duration))
  | yield (resume : Moment → Process) (rest : Option Ending)
      (onward : ∀ now, Takes rule (resume ⟨now, false⟩) rest) :
      Takes rule (.wait .yield resume) rest
  | forever (resume : Moment → Process) : Takes rule (.wait .forever resume) none
  | cancellation (resume : Moment → Process) : Takes rule (.wait .cancellation resume) none

/-- Every evaluation of the question takes the same time to the same decision, in a request that is
not cancelled. -/
def Question.Takes (question : Question) (ending : Option Ending) : Prop :=
  match question.predicate with
  | .constant allowed => ending = some ⟨0, if allowed then .allow else .deny none⟩
  | .custom invoke => ∀ invocation evidence now,
      (invoke invocation evidence ⟨now, false⟩).Takes question.name ending

namespace Ending

theorem after_after (first second : Nat) (ending : Ending) :
    (ending.after second).after first = ending.after (first + second) := by
  simp [after, Nat.add_assoc]

theorem le_latest {start : Nat} {endings : List Ending} {ending : Ending}
    (member : ending ∈ endings) : ending.time ≤ latest start endings := by
  induction endings with
  | nil => cases member
  | cons first rest ih =>
    rcases List.mem_cons.mp member with rfl | inside
    · exact Nat.le_max_left _ _
    · exact (ih inside).trans (Nat.le_max_right _ _)

theorem start_le_latest (start : Nat) (endings : List Ending) : start ≤ latest start endings := by
  induction endings with
  | nil => exact Nat.le_refl start
  | cons first rest ih => exact ih.trans (Nat.le_max_right _ _)

theorem latest_le {start bound : Nat} {endings : List Ending} (begun : start ≤ bound)
    (each : ∀ ending ∈ endings, ending.time ≤ bound) : latest start endings ≤ bound := by
  induction endings with
  | nil => exact begun
  | cons first rest ih =>
    exact Nat.max_le.mpr ⟨each first List.mem_cons_self,
      ih fun ending member => each ending (List.mem_cons_of_mem _ member)⟩

section

variable {decisive : Decision → Bool} {conclude : List Ending → Decision} {start now : Nat}
  {endings : List (Option Ending)}

theorem concurrent_eq_some {ending : Ending}
    (same : concurrent decisive conclude start endings = some ending) :
    (some ending ∈ endings ∧ decisive ending.decision = true) ∨
      none ∉ endings ∧ ending.time = latest start endings.reduceOption := by
  unfold concurrent at same
  split at same
  · next first found =>
    cases same
    have member := List.argmin_mem found
    rw [List.mem_filter, List.reduceOption_mem_iff] at member
    exact Or.inl member
  · split at same
    · cases same
    · next ended =>
      cases same
      exact Or.inr ⟨ended, rfl⟩

theorem concurrent_decisive {decision : Decision} (member : some ⟨now, decision⟩ ∈ endings)
    (decides : decisive decision = true)
    (first : ∀ ending, some ending ∈ endings → decisive ending.decision = true → now ≤ ending.time)
    (untied : ∀ ending, some ending ∈ endings → decisive ending.decision = true →
      ending.time = now → ending.decision = decision) :
    concurrent decisive conclude start endings = some ⟨now, decision⟩ := by
  have inside : (⟨now, decision⟩ : Ending) ∈
      endings.reduceOption.filter fun ending => decisive ending.decision :=
    List.mem_filter.mpr ⟨List.reduceOption_mem_iff.mpr member, decides⟩
  unfold concurrent
  cases found : earliest (endings.reduceOption.filter fun ending => decisive ending.decision) with
  | none =>
    rw [List.argmin_eq_none.mp found] at inside
    cases inside
  | some ending =>
    have among := List.argmin_mem found
    rw [List.mem_filter, List.reduceOption_mem_iff] at among
    have sooner : ending.time ≤ now := List.le_of_mem_argmin inside found
    have same : ending.time = now := Nat.le_antisymm sooner (first ending among.1 among.2)
    have decided := untied ending among.1 among.2 same
    obtain ⟨time, reached⟩ := ending
    cases same
    cases decided
    rfl

theorem concurrent_concluded (ended : none ∉ endings)
    (undecided : ∀ ending, some ending ∈ endings → decisive ending.decision = false) :
    concurrent decisive conclude start endings =
      some ⟨latest start endings.reduceOption, conclude endings.reduceOption⟩ := by
  have nothing : endings.reduceOption.filter (fun ending => decisive ending.decision) = [] := by
    rw [List.filter_eq_nil_iff]
    intro ending member
    simp [undecided ending (List.reduceOption_mem_iff.mp member)]
  unfold concurrent earliest
  rw [nothing]
  simp [ended]

theorem le_concurrent {ending : Ending}
    (decided : ∀ other, some other ∈ endings → decisive other.decision = true → now ≤ other.time)
    (waiting : ∃ operand ∈ endings, ∀ other, operand = some other → now ≤ other.time)
    (same : concurrent decisive conclude start endings = some ending) : now ≤ ending.time := by
  rcases concurrent_eq_some same with ⟨member, decides⟩ | ⟨ended, time⟩
  · exact decided ending member decides
  · obtain ⟨operand, member, due⟩ := waiting
    cases operand with
    | none => exact absurd member ended
    | some other =>
      rw [time]
      exact (due other rfl).trans (le_latest (List.reduceOption_mem_iff.mpr member))

end

end Ending

namespace Connective

def concluded (connective : Connective) (precedence : Precedence) (endings : List Ending) :
    Decision :=
  connective.conclude precedence (endings.map Ending.decision)
    ((Ending.earliest endings).map Ending.decision)

end Connective

namespace Rule

variable {precedence : Precedence} {takes : RuleId → Option Ending}

theorem endings_eq_map (rules : List Rule) (start : Nat) :
    endings precedence takes rules start = rules.map fun rule => rule.ending precedence takes start := by
  induction rules with
  | nil => rfl
  | cons rule rest ih => simp [endings, ih]

theorem ending_group {connective : Connective} (atOnce : connective ≠ .chain) (id : RuleId)
    (operands : List Rule) (start : Nat) :
    (group id connective operands).ending precedence takes start =
      Ending.concurrent connective.isDecisive (connective.concluded precedence) start
        (endings precedence takes operands start) := by
  cases connective with
  | chain => exact absurd rfl atOnce
  | and => rfl
  | race => rfl
  | or =>
    have same : Connective.or.concluded precedence = fun refusals =>
        let reported := match precedence with
          | .last => refusals.getLast?
          | .first => refusals.head?
        (reported.map Ending.decision).getD (.deny none) := by
      funext refusals
      cases precedence <;> simp [Connective.concluded, Connective.conclude]
    rw [same]
    rfl

theorem endingInTurn_cons (rule : Rule) (rest : List Rule) (start : Nat) (ending : Ending) :
    endingInTurn precedence takes (rule :: rest) start = some ending ↔
      ∃ first, rule.ending precedence takes start = some first ∧
        if first.decision = .allow then endingInTurn precedence takes rest first.time = some ending
        else first = ending := by
  rw [endingInTurn]
  cases rule.ending precedence takes start with
  | none => simp
  | some first =>
    obtain ⟨time, decision⟩ := first
    cases decision <;> simp

theorem untied_group {connective : Connective} (atOnce : connective ≠ .chain) (id : RuleId)
    (operands : List Rule) (start : Nat)
    (untied : (group id connective operands).Untied precedence takes start) :
    UntiedAtOnce precedence takes operands start ∧
      (connective ≠ .or → Ending.NoTies (endings precedence takes operands start)) := by
  cases connective with
  | chain => exact absurd rfl atOnce
  | or => exact ⟨untied, fun other => absurd rfl other⟩
  | and => exact ⟨untied.1, fun _ => untied.2⟩
  | race => exact ⟨untied.1, fun _ => untied.2⟩

theorem UntiedAtOnce.each {rules : List Rule} {start : Nat}
    (untied : UntiedAtOnce precedence takes rules start) (rule : Rule) (member : rule ∈ rules) :
    rule.Untied precedence takes start := by
  induction rules with
  | nil => cases member
  | cons first rest ih =>
    rcases List.mem_cons.mp member with rfl | inside
    · exact untied.1
    · exact ih untied.2 inside

theorem start_le_inTurn (rules : List Rule)
    (each : ∀ rule ∈ rules, ∀ start ending,
      rule.ending precedence takes start = some ending → start ≤ ending.time)
    (start : Nat) (ending : Ending)
    (same : endingInTurn precedence takes rules start = some ending) : start ≤ ending.time := by
  induction rules generalizing start with
  | nil =>
    cases same
    exact Nat.le_refl start
  | cons rule rest ih =>
    obtain ⟨first, known, onward⟩ := (endingInTurn_cons rule rest start ending).mp same
    have begun := each rule List.mem_cons_self start first known
    split at onward
    · exact begun.trans (ih (fun other inside => each other (List.mem_cons_of_mem _ inside)) _ onward)
    · rwa [← onward]

theorem start_le_ending (rule : Rule) (start : Nat) (ending : Ending)
    (same : rule.ending precedence takes start = some ending) : start ≤ ending.time := by
  induction rule generalizing start ending with
  | leaf id question =>
    obtain ⟨delay, _, rfl⟩ := Option.map_eq_some_iff.mp same
    exact Nat.le_add_right start delay.time
  | not id operand ih =>
    obtain ⟨other, known, rfl⟩ := Option.map_eq_some_iff.mp same
    rw [other.negate_eq]
    exact ih start other known
  | group id connective operands ih =>
    by_cases inTurn : connective = .chain
    · subst inTurn
      exact start_le_inTurn operands ih start ending same
    · rw [ending_group inTurn] at same
      rcases Ending.concurrent_eq_some same with ⟨member, _⟩ | ⟨_, time⟩
      · rw [endings_eq_map] at member
        obtain ⟨operand, inside, known⟩ := List.mem_map.mp member
        exact ih operand inside start ending known
      · rw [time]
        exact Ending.start_le_latest start _

theorem start_le_endingInTurn (rules : List Rule) (start : Nat) (ending : Ending)
    (same : endingInTurn precedence takes rules start = some ending) : start ≤ ending.time :=
  start_le_inTurn rules (fun rule _ => rule.start_le_ending) start ending same

theorem endingInTurn_allowed {rule : Rule} {rest : List Rule} {start begun : Nat}
    (allowed : endingInTurn precedence takes (rule :: rest) start = some ⟨begun, .allow⟩) :
    ∃ time, rule.ending precedence takes start = some ⟨time, .allow⟩ ∧
      endingInTurn precedence takes rest time = some ⟨begun, .allow⟩ := by
  obtain ⟨⟨time, decision⟩, known, onward⟩ := (endingInTurn_cons rule rest start _).mp allowed
  split at onward
  · next allows =>
    cases allows
    exact ⟨time, known, onward⟩
  · next refuses =>
    cases onward
    exact absurd rfl refuses

theorem endingInTurn_append {before behind : List Rule} {start begun : Nat}
    (allowed : endingInTurn precedence takes before start = some ⟨begun, .allow⟩) :
    endingInTurn precedence takes (before ++ behind) start =
      endingInTurn precedence takes behind begun := by
  induction before generalizing start with
  | nil =>
    cases allowed
    rfl
  | cons rule rest ih =>
    obtain ⟨time, known, onward⟩ := endingInTurn_allowed allowed
    rw [List.cons_append, endingInTurn, known]
    exact ih onward

end Rule

end FieldGuard
