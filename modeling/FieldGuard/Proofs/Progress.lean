import FieldGuard.Proofs.Meaning
import FieldGuard.Proofs.Pacing

set_option autoImplicit false

namespace FieldGuard

theorem Stage.mem_allDeadlines (memo : Memo) (stages : List Stage) (deadline : Nat) :
    deadline ∈ allDeadlines memo stages ↔ ∃ stage ∈ stages, deadline ∈ stage.deadlines memo := by
  induction stages with
  | nil => simp [allDeadlines]
  | cons stage rest ih => simp [allDeadlines, ih]

namespace Ending

def Leads (endings : List (Option Ending)) (decision : Decision) : Prop :=
  ∃ time, some ⟨time, decision⟩ ∈ endings ∧ ∀ other, some other ∈ endings → time ≤ other.time

end Ending

namespace Rule

def Timed (takes : RuleId → Option Ending) (rule : Rule) : Prop :=
  ∀ leaf ∈ rule.leaves, leaf.2.sharing = .none ∧ leaf.2.Takes (takes leaf.1)

variable (precedence : Precedence) (takes : RuleId → Option Ending) (now : Nat)

/-- How far an evaluation may have come that was polled whenever a leaf had something to do. -/
inductive Paces : Rule → Nat → Stage → Prop
  | settled (rule : Rule) (start time : Nat) (decision : Decision) (past : time ≤ now)
      (reached : rule.ending precedence takes start = some ⟨time, decision⟩) :
      Paces rule start (.settled decision)
  | leaf (id : RuleId) (question : Question) (start : Nat) (flight : Flight)
      (waiting : flight.decision? = none)
      (runs : flight.Runs question.name now ((takes id).map (·.after start))) :
      Paces (.leaf id question) start (.own flight)
  | not (id : RuleId) (operand : Rule) (start : Nat) (stage : Stage)
      (waiting : stage.decision? = none) (inner : Paces operand start stage) :
      Paces (.not id operand) start stage
  | inTurn (id : RuleId) (before : List Rule) (operand : Rule) (behind : List Rule)
      (start begun : Nat) (stage : Stage) (first : Option Decision)
      (allowed : endingInTurn precedence takes before start = some ⟨begun, .allow⟩)
      (waiting : stage.decision? = none) (inner : Paces operand begun stage) :
      Paces (.group id .chain (before ++ operand :: behind)) start
        (.group (List.replicate before.length (.settled .allow) ++
          stage :: List.replicate behind.length .fresh) first)
  | atOnce (id : RuleId) (connective : Connective) (operands : List Rule) (start : Nat)
      (stages : List Stage) (first : Option Decision) (together : connective ≠ .chain)
      (begun : start ≤ now) (lengths : operands.length = stages.length)
      (inner : ∀ pair ∈ operands.zip stages, Paces pair.1 start pair.2)
      (undecided : ∀ decision, .settled decision ∈ stages → connective.isDecisive decision = false)
      (waits : ∃ stage ∈ stages, stage.decision? = none)
      (leads : ∀ decision, first = some decision →
        Ending.Leads (endings precedence takes operands start) decision)
      (unreported : first = none → ∀ stage ∈ stages, stage.decision? = none) :
      Paces (.group id connective operands) start (.group stages first)

def Ready (rule : Rule) (start : Nat) (stage : Stage) : Prop :=
  stage = .fresh ∧ start = now ∨ rule.Paces precedence takes now start stage

variable {precedence takes now}

theorem paces_settled {rule : Rule} {start : Nat} {decision : Decision}
    (paces : rule.Paces precedence takes now start (.settled decision)) :
    ∃ time ≤ now, rule.ending precedence takes start = some ⟨time, decision⟩ := by
  generalize same : Stage.settled decision = stage at paces
  cases paces with
  | settled _ _ time _ past reached =>
    cases same
    exact ⟨time, past, reached⟩
  | leaf => cases same
  | not _ _ _ _ waiting =>
    subst same
    cases waiting
  | inTurn => cases same
  | atOnce => cases same

theorem exists_stage {operands : List Rule} {stages : List Stage} {start : Nat} {ending : Ending}
    (lengths : operands.length = stages.length)
    (member : some ending ∈ endings precedence takes operands start) :
    ∃ pair ∈ operands.zip stages, pair.1.ending precedence takes start = some ending := by
  rw [endings_eq_map] at member
  obtain ⟨operand, inside, known⟩ := List.mem_map.mp member
  rw [← List.map_fst_zip lengths.le] at inside
  obtain ⟨pair, paired, rfl⟩ := List.mem_map.mp inside
  exact ⟨pair, paired, known⟩

theorem due_of_decisive {connective : Connective} {operands : List Rule} {stages : List Stage}
    {start : Nat} (lengths : operands.length = stages.length)
    (reached : ∀ pair ∈ operands.zip stages, ∀ decision, pair.2 = .settled decision →
      ∃ time ≤ now, pair.1.ending precedence takes start = some ⟨time, decision⟩)
    (due : ∀ pair ∈ operands.zip stages, pair.2.decision? = none →
      ∀ ending, pair.1.ending precedence takes start = some ending → now ≤ ending.time)
    (undecided : ∀ decision, .settled decision ∈ stages → connective.isDecisive decision = false)
    (ending : Ending) (member : some ending ∈ endings precedence takes operands start)
    (decisive : connective.isDecisive ending.decision = true) : now ≤ ending.time := by
  obtain ⟨⟨operand, stage⟩, paired, known⟩ := exists_stage lengths member
  rcases stage.settled_or_waiting with ⟨decision, rfl⟩ | waiting
  · obtain ⟨time, past, same⟩ := reached _ paired decision rfl
    rw [known, Option.some.injEq] at same
    subst same
    rw [undecided decision (List.of_mem_zip paired).2] at decisive
    cases decisive
  · exact due _ paired waiting ending known

theorem Paces.due {rule : Rule} {start : Nat} {stage : Stage}
    (paces : rule.Paces precedence takes now start stage) (waiting : stage.decision? = none)
    (ending : Ending) (same : rule.ending precedence takes start = some ending) :
    now ≤ ending.time := by
  induction paces generalizing ending with
  | settled rule start time decision past reached => cases waiting
  | leaf id question start flight unsettled runs =>
    rw [Rule.ending] at same
    rw [same] at runs
    exact runs.due
  | not id operand start stage unsettled inner ih =>
    obtain ⟨other, known, rfl⟩ := Option.map_eq_some_iff.mp same
    rw [other.negate_eq]
    exact ih unsettled other known
  | inTurn id before operand behind start begun stage first allowed unsettled inner ih =>
    rw [Rule.ending, endingInTurn_append allowed] at same
    obtain ⟨own, known, onward⟩ := (endingInTurn_cons operand behind begun ending).mp same
    have due := ih unsettled own known
    split at onward
    · exact due.trans (start_le_endingInTurn behind own.time ending onward)
    · rwa [← onward]
  | atOnce id connective operands start stages first together begun lengths inner undecided waits
      leads unreported ih =>
    rw [ending_group together] at same
    refine Ending.le_concurrent ?_ ?_ same
    · exact due_of_decisive lengths
        (fun pair paired decision settled => paces_settled (settled ▸ inner pair paired)) ih undecided
    · obtain ⟨stage, member, unsettled⟩ := waits
      rw [← List.map_snd_zip lengths.ge] at member
      obtain ⟨⟨operand, stage⟩, paired, rfl⟩ := List.mem_map.mp member
      rw [endings_eq_map]
      exact ⟨_, List.mem_map.mpr ⟨operand, (List.of_mem_zip paired).1, rfl⟩, ih _ paired unsettled⟩

theorem Ready.due {rule : Rule} {start : Nat} {stage : Stage}
    (ready : rule.Ready precedence takes now start stage) (waiting : stage.decision? = none)
    (ending : Ending) (same : rule.ending precedence takes start = some ending) :
    now ≤ ending.time := by
  rcases ready with ⟨_, rfl⟩ | paces
  · exact rule.start_le_ending start ending same
  · exact paces.due waiting ending same

theorem Ready.reached {rule : Rule} {start : Nat} {decision : Decision}
    (ready : rule.Ready precedence takes now start (.settled decision)) :
    ∃ time ≤ now, rule.ending precedence takes start = some ⟨time, decision⟩ := by
  rcases ready with ⟨fresh, _⟩ | paces
  · cases fresh
  · exact paces_settled paces

theorem ending_of_decided {connective : Connective} (together : connective ≠ .chain) (id : RuleId)
    {operands : List Rule} {start : Nat} {decision : Decision}
    (untied : (group id connective operands).Untied precedence takes start)
    (first : ∀ ending, some ending ∈ endings precedence takes operands start →
      connective.isDecisive ending.decision = true → now ≤ ending.time)
    (decisive : connective.isDecisive decision = true)
    (reached : ∃ operand ∈ operands,
      operand.ending precedence takes start = some ⟨now, decision⟩) :
    (group id connective operands).ending precedence takes start = some ⟨now, decision⟩ := by
  rw [ending_group together]
  have member : some ⟨now, decision⟩ ∈ endings precedence takes operands start := by
    rw [endings_eq_map]
    exact List.mem_map.mpr reached
  refine Ending.concurrent_decisive member decisive first ?_
  intro ending inside decides same
  cases connective with
  | chain => exact absurd rfl together
  | and =>
    -- two refusals at one instant are the same one
    have tied := (untied_group together id operands start untied).2 (by simp) ending _ inside member
      (by simpa [Connective.isDecisive] using decides)
      (by simpa [Connective.isDecisive] using decisive) same
    rw [tied]
  | or => rw [(Decision.eq_allow_iff _).mpr decides, (Decision.eq_allow_iff _).mpr decisive]
  | race => rw [(Decision.eq_allow_iff _).mpr decides, (Decision.eq_allow_iff _).mpr decisive]

theorem earliest_of_leads {reached : List Ending} {first : Option Decision}
    (refused : ∀ ending ∈ reached, ending.decision.isAllowed = false)
    (untied : Ending.NoTies (reached.map some))
    (leads : ∀ decision, first = some decision → Ending.Leads (reached.map some) decision)
    (unreported : first = none → reached = []) :
    (Ending.earliest reached).map Ending.decision = first := by
  cases first with
  | none =>
    rw [unreported rfl]
    rfl
  | some decision =>
    obtain ⟨time, member, sooner⟩ := leads decision rfl
    have inside : (⟨time, decision⟩ : Ending) ∈ reached := by simpa using member
    cases found : Ending.earliest reached with
    | none =>
      rw [List.argmin_eq_none.mp found] at inside
      cases inside
    | some ending =>
      have among := List.argmin_mem found
      have first : ending.time = time :=
        Nat.le_antisymm (List.le_of_mem_argmin inside found) (sooner ending (by simpa using among))
      -- they refuse at one instant, and such refusals do not differ
      rw [untied ending ⟨time, decision⟩ (by simpa using among) member (refused ending among)
        (refused _ inside) first]
      rfl

theorem ending_of_concluded {connective : Connective} (together : connective ≠ .chain) (id : RuleId)
    {operands : List Rule} {start : Nat} {reached : List Ending} {first : Option Decision}
    (untied : (group id connective operands).Untied precedence takes start) (begun : start ≤ now)
    (due : ∀ ending, (group id connective operands).ending precedence takes start = some ending →
      now ≤ ending.time)
    (same : endings precedence takes operands start = reached.map some)
    (past : ∀ ending ∈ reached, ending.time ≤ now)
    (undecided : ∀ ending ∈ reached, connective.isDecisive ending.decision = false)
    (leads : ∀ decision, first = some decision →
      Ending.Leads (endings precedence takes operands start) decision)
    (unreported : first = none → reached = []) :
    (group id connective operands).ending precedence takes start =
      some ⟨now, connective.conclude precedence (reached.map Ending.decision) first⟩ := by
  have all : (reached.map some).reduceOption = reached := by simp [List.reduceOption]
  have ended : (group id connective operands).ending precedence takes start =
      some ⟨Ending.latest start reached, connective.concluded precedence reached⟩ := by
    rw [ending_group together, same,
      Ending.concurrent_concluded (by simp) (by simpa using undecided), all]
  have last : Ending.latest start reached = now :=
    Nat.le_antisymm (Ending.latest_le begun past) (due _ ended)
  rw [ended, last, Connective.concluded]
  cases connective with
  | chain => exact absurd rfl together
  | and => rfl
  | or => rfl
  | race =>
    -- only a race goes by the instants at which its operands end
    have ties := (untied_group together id operands start untied).2 (by simp)
    rw [same] at ties leads
    rw [earliest_of_leads undecided ties leads unreported]

theorem mem_awaitedOf {operands : List Rule} {stages : List Stage} {pair : Rule × Stage}
    (paired : pair ∈ operands.zip stages) {entry : RuleId × Question × Stage}
    (member : entry ∈ pair.1.awaited pair.2) : entry ∈ awaitedOf operands stages := by
  induction operands generalizing stages with
  | nil => simp at paired
  | cons operand operands ih =>
    cases stages with
    | nil => simp at paired
    | cons stage stages =>
      rw [awaitedOf, List.mem_append]
      rcases List.mem_cons.mp paired with rfl | inside
      · exact Or.inl member
      · exact Or.inr (ih inside)

theorem Paces.wait {rule : Rule} {start : Nat} {stage : Stage}
    (paces : rule.Paces precedence takes now start stage) (next : Nat) (later : now ≤ next)
    (memo : Memo) (still : ∀ entry ∈ rule.awaited stage, entry.2.2.Still now)
    (soonest : ∀ deadline ∈ stage.deadlines memo, now < deadline → next ≤ deadline) :
    rule.Paces precedence takes next start stage := by
  induction paces with
  | settled rule start time decision past reached =>
    exact .settled rule start time decision (past.trans later) reached
  | leaf id question start flight waiting runs =>
    have rests : flight.Rests now := still (id, question, .own flight) (List.mem_singleton_self _)
    refine .leaf id question start flight waiting (runs.wait rests next fun deadline known => ?_)
    exact soonest deadline (by simp [Stage.deadlines, known])
  | not id operand start stage waiting inner ih =>
    rw [awaited_not] at still
    exact .not id operand start stage waiting (ih still soonest)
  | inTurn id before operand behind start begun stage first allowed waiting inner ih =>
    have paired : (operand, stage) ∈ (before ++ operand :: behind).zip
        (List.replicate before.length (.settled .allow) ++
          stage :: List.replicate behind.length .fresh) := by
      rw [List.zip_append (by simp)]
      simp
    refine .inTurn id before operand behind start begun stage first allowed waiting (ih ?_ ?_)
    · exact fun entry member => still entry (mem_awaitedOf paired member)
    · exact fun deadline member => soonest deadline ((Stage.mem_allDeadlines memo _ deadline).mpr
        ⟨stage, (List.of_mem_zip paired).2, member⟩)
  | atOnce id connective operands start stages first together begun lengths inner undecided waits leads
      unreported ih =>
    refine .atOnce id connective operands start stages first together (begun.trans later) lengths
      (fun pair paired => ih pair paired ?_ ?_) undecided waits leads unreported
    · exact fun entry member => still entry (mem_awaitedOf paired member)
    · exact fun deadline member => soonest deadline ((Stage.mem_allDeadlines memo stages deadline).mpr
        ⟨pair.2, (List.of_mem_zip paired).2, member⟩)

end Rule

end FieldGuard
