import FieldGuard.Proofs.Progress

set_option autoImplicit false

namespace FieldGuard

namespace Rule

variable {precedence : Precedence} {takes : RuleId → Option Ending} {now : Nat}

def awaitedAfter (rules : List Rule) : Pass → List (RuleId × Question × Stage)
  | .decided _ => []
  | .passed stages _ => awaitedOf rules stages

theorem spent_cons {rule : Rule} {rules : List Rule} {stage later : Stage} {stages : List Stage}
    {pass : Pass} {trace grown final : Trace}
    (own : Spent now (rule.awaited stage) (rule.awaited later) trace grown)
    (others : Spent now (awaitedOf rules stages) (awaitedAfter rules pass) grown final) :
    Spent now (awaitedOf (rule :: rules) (stage :: stages))
      (awaitedAfter (rule :: rules) (pass.cons later)) trace final := by
  cases pass with
  | decided decision => exact (own.append others).drop le_rfl
  | passed behind first => exact own.append others

theorem spent_group {id : RuleId} {connective : Connective} {operands : List Rule}
    {stages : List Stage} {pass : Pass} {trace final : Trace}
    (spent : Spent now (awaitedOf operands stages) (awaitedAfter operands pass) trace final) :
    Spent now (awaitedOf operands stages)
      ((group id connective operands).awaited (pass.stage connective precedence)) trace final := by
  cases pass with
  | decided decision => exact spent
  | passed later first =>
    simp only [Pass.stage]
    cases later.mapM Stage.decision? with
    | none => exact spent
    | some decisions => exact spent.drop le_rfl

variable (takes) (visit : Visit)

structure InTime (rule : Rule) (start : Nat) (stage : Stage) (state : State)
    (result : Stage × State) : Prop where
  paces : rule.Paces visit.precedence takes visit.now start result.1
  prompt : ∀ decision, result.1 = .settled decision → stage = .settled decision ∨
    rule.ending visit.precedence takes start = some ⟨visit.now, decision⟩
  spent : Spent visit.now (rule.awaited stage) (rule.awaited result.1) state.trace
    result.2.trace

def Arrives (rule : Rule) (start : Nat) (stage : Stage) : Prop :=
  (∃ decision, stage = .settled decision ∧
    rule.ending visit.precedence takes start = some ⟨visit.now, decision⟩) ∨
  stage.decision? = none ∧ rule.Paces visit.precedence takes visit.now start stage

def Punctual (rule : Rule) : Prop :=
  ∀ start stage state, rule.Untied visit.precedence takes start →
    rule.Ready visit.precedence takes visit.now start stage → state.request.cancelled = false →
      rule.InTime takes visit start stage state (rule.poll visit stage state)

structure PassInTime (Passed : Pass → Prop) (rules : List Rule) (stages : List Stage)
    (state : State) (result : Pass × State) : Prop where
  passed : Passed result.1
  spent : Spent visit.now (awaitedOf rules stages) (awaitedAfter rules result.1) state.trace
    result.2.trace

/-- The operands of a group that were polled or are to be polled at this instant, and what is known
of the first of them to settle. -/
structure Together (Fits : Rule → Stage → Prop) (Leads : Decision → Prop) (connective : Connective)
    (rules : List Rule) (stages : List Stage) (first : Option Decision) : Prop where
  lengths : rules.length = stages.length
  each : ∀ pair ∈ rules.zip stages, Fits pair.1 pair.2
  undecided : ∀ decision, .settled decision ∈ stages → connective.isDecisive decision = false
  leads : ∀ decision, first = some decision → Leads decision
  unreported : first = none → ∀ stage ∈ stages, stage.decision? = none

section

variable {Fits : Rule → Stage → Prop} {Leads : Decision → Prop} {connective : Connective}
  {rule : Rule} {rules : List Rule} {stage : Stage} {stages : List Stage} {first : Option Decision}

theorem Together.cons (together : Together Fits Leads connective rules stages first)
    (fits : Fits rule stage)
    (undecided : ∀ decision, stage = .settled decision → connective.isDecisive decision = false)
    (waits : first = none → stage.decision? = none) :
    Together Fits Leads connective (rule :: rules) (stage :: stages) first where
  lengths := congrArg Nat.succ together.lengths
  each := by
    intro pair member
    rcases List.mem_cons.mp member with rfl | inside
    · exact fits
    · exact together.each pair inside
  undecided := by
    intro decision member
    rcases List.mem_cons.mp member with same | inside
    · exact undecided decision same.symm
    · exact together.undecided decision inside
  leads := together.leads
  unreported := by
    intro none other member
    rcases List.mem_cons.mp member with rfl | inside
    · exact waits none
    · exact together.unreported none other inside

theorem Together.tail (together : Together Fits Leads connective (rule :: rules) (stage :: stages) first)
    (later : Stage) (leads : first = none → ∀ decision, later = .settled decision → Leads decision) :
    Together Fits Leads connective rules stages (first.or later.decision?) where
  lengths := Nat.succ.inj together.lengths
  each := fun pair member => together.each pair (List.mem_cons_of_mem _ member)
  undecided := fun decision member => together.undecided decision (List.mem_cons_of_mem _ member)
  leads := by
    intro decision same
    cases first with
    | none => exact leads rfl decision (Stage.decision?_eq_some.mp same)
    | some known => exact together.leads decision same
  unreported := by
    intro none other member
    exact together.unreported (Option.or_eq_none_iff.mp none).1 other (List.mem_cons_of_mem _ member)

end

def PassedTogether (Leads : Decision → Prop) (connective : Connective) (rules : List Rule)
    (start : Nat) (first : Option Decision) : Pass → Prop
  | .decided decision =>
      connective.isDecisive decision = true ∧
        ∃ rule ∈ rules, rule.ending visit.precedence takes start = some ⟨visit.now, decision⟩
  | .passed stages reported =>
      Together (fun rule stage => rule.Paces visit.precedence takes visit.now start stage) Leads
        connective rules stages reported ∧ (reported = none → first = none)

variable {takes visit}

theorem pollOperands_together {connective : Connective} (together : connective ≠ .chain)
    (Leads : Decision → Prop) (rules : List Rule) (each : ∀ rule ∈ rules, rule.Punctual takes visit)
    (start : Nat) (stages : List Stage) (first : Option Decision) (state : State)
    (untied : ∀ rule ∈ rules, rule.Untied visit.precedence takes start)
    (running : state.request.cancelled = false)
    (ready : Together (fun rule stage => rule.Ready visit.precedence takes visit.now start stage)
      Leads connective rules stages first)
    (arising : first = none → ∀ rule ∈ rules, ∀ decision,
      rule.ending visit.precedence takes start = some ⟨visit.now, decision⟩ → Leads decision) :
    PassInTime visit (PassedTogether takes visit Leads connective rules start first) rules stages
      state (pollOperands visit connective rules stages first state) := by
  induction rules generalizing stages first state with
  | nil =>
    cases stages with
    | cons stage stages => cases ready.lengths
    | nil => exact ⟨⟨⟨rfl, by simp, by simp, ready.leads, by simp⟩, fun same => same⟩,
        .rested le_rfl (by simp [awaitedAfter, awaitedOf, pollOperands])⟩
  | cons rule rules ih =>
    cases stages with
    | nil => cases ready.lengths
    | cons stage stages =>
      have own := each rule List.mem_cons_self start stage state
        (untied rule List.mem_cons_self) (ready.each _ List.mem_cons_self) running
      have still := (rule.poll_cancelled_eq visit stage state).trans running
      rw [pollOperands_cons]
      generalize rule.poll visit stage state = polled at own still ⊢
      obtain ⟨later, after⟩ := polled
      obtain ⟨paces, prompt, spent⟩ := own
      dsimp only at paces prompt spent still ⊢
      by_cases onward : connective.goesOn later = true
      · simp only [onward, if_true]
        -- an operand that settles first does so now, since all waited before
        have leads (none : first = none) (decision : Decision) (settled : later = .settled decision) :
            Leads decision := by
          rcases prompt decision settled with rfl | reached
          · cases ready.unreported none _ List.mem_cons_self
          · exact arising none rule List.mem_cons_self decision reached
        obtain ⟨passed, others⟩ := ih (fun other inside => each other (List.mem_cons_of_mem _ inside))
          stages (first.or later.decision?) after
          (fun other inside => untied other (List.mem_cons_of_mem _ inside)) still
          (ready.tail later leads)
          (fun none other inside => arising (Option.or_eq_none_iff.mp none).1 other
            (List.mem_cons_of_mem _ inside))
        refine ⟨?_, spent_cons spent others⟩
        generalize (pollOperands visit connective rules stages (first.or later.decision?) after).1 =
          pass at passed
        cases pass with
        | decided decision =>
          obtain ⟨decisive, other, inside, reached⟩ := passed
          exact ⟨decisive, other, List.mem_cons_of_mem _ inside, reached⟩
        | passed behind reported =>
          obtain ⟨kept, waited⟩ := passed
          have both (none : reported = none) := Option.or_eq_none_iff.mp (waited none)
          exact ⟨kept.cons paces (goesOn_undecided onward) (fun none => (both none).2),
            fun none => (both none).1⟩
      · rcases later.settled_or_waiting with ⟨decision, rfl⟩ | waiting
        · simp only [onward, Bool.false_eq_true, if_false, Stage.decision?]
          have decisive : connective.isDecisive decision = true := by
            simpa [Connective.goesOn, Stage.decision?] using onward
          refine ⟨⟨decisive, rule, List.mem_cons_self, ?_⟩,
            spent.drop (Spent.loadOf_le_append _ _ _)⟩
          rcases prompt decision rfl with rfl | reached
          · rw [ready.undecided decision List.mem_cons_self] at decisive
            cases decisive
          · exact reached
        · simp [Connective.goesOn, waiting, together] at onward

variable (takes visit) in
def PassedInTurn (rules : List Rule) (start : Nat) : Pass → Prop
  | .decided decision =>
      endingInTurn visit.precedence takes rules start = some ⟨visit.now, decision⟩
  | .passed stages first =>
      (stages = List.replicate rules.length (.settled .allow) ∧
        endingInTurn visit.precedence takes rules start = some ⟨visit.now, .allow⟩) ∨
      ∀ id, Paces visit.precedence takes visit.now (group id .chain rules) start (.group stages first)

theorem PassedInTurn.cons {rule : Rule} {rest : List Rule} {start time : Nat} {pass : Pass}
    (allowed : rule.ending visit.precedence takes start = some ⟨time, .allow⟩)
    (passed : PassedInTurn takes visit rest time pass) :
    PassedInTurn takes visit (rule :: rest) start (pass.cons (.settled .allow)) := by
  have onward (others : List Rule) (ending : Ending)
      (reached : endingInTurn visit.precedence takes others time = some ending) :
      endingInTurn visit.precedence takes (rule :: others) start = some ending :=
    (endingInTurn_cons rule others start ending).mpr ⟨_, allowed, by simpa using reached⟩
  cases pass with
  | decided decision => exact onward _ _ passed
  | passed stages first =>
    rcases passed with ⟨rfl, reached⟩ | paces
    · exact Or.inl ⟨rfl, onward _ _ reached⟩
    · right
      intro id
      cases paces id with
      | atOnce _ _ _ _ _ _ together => exact absurd rfl together
      | inTurn _ before operand behind _ begun stage _ known waiting inner =>
        exact .inTurn id (rule :: before) operand behind start begun stage first (onward _ _ known)
          waiting inner

theorem InTime.inTurn {rule : Rule} {rest : List Rule} {begun : Nat} {stage : Stage} {state : State}
    (own : rule.InTime takes visit begun stage state (rule.poll visit stage state))
    (waiting : stage.decision? = none) (running : state.request.cancelled = false)
    (first : Option Decision)
    (onward : rule.ending visit.precedence takes begun = some ⟨visit.now, .allow⟩ →
      ∀ first after, after.request.cancelled = false →
        PassInTime visit (PassedInTurn takes visit rest visit.now) rest
          (List.replicate rest.length .fresh) after
          (pollOperands visit .chain rest (List.replicate rest.length .fresh) first after)) :
    PassInTime visit (PassedInTurn takes visit (rule :: rest) begun) (rule :: rest)
      (stage :: List.replicate rest.length .fresh) state
      (pollOperands visit .chain (rule :: rest) (stage :: List.replicate rest.length .fresh) first
        state) := by
  have still := (rule.poll_cancelled_eq visit stage state).trans running
  rw [pollOperands_cons]
  generalize rule.poll visit stage state = polled at own still ⊢
  obtain ⟨later, after⟩ := polled
  obtain ⟨paces, prompt, spent⟩ := own
  dsimp only at paces prompt spent still ⊢
  -- the operands behind begin at this instant, if they begin
  rcases later.settled_or_waiting with ⟨decision, rfl⟩ | waits
  · have reached : rule.ending visit.precedence takes begun = some ⟨visit.now, decision⟩ := by
      rcases prompt decision rfl with rfl | reached
      · cases waiting
      · exact reached
    by_cases allows : decision = .allow
    · subst allows
      obtain ⟨passed, others⟩ := onward reached (first.or (some .allow)) after still
      exact ⟨passed.cons reached, spent_cons spent others⟩
    · have refuses : Connective.goesOn .chain (.settled decision) = false := by
        rw [Decision.eq_allow_iff, Bool.not_eq_true] at allows
        simp [Connective.goesOn, Stage.decision?, Connective.isDecisive, allows]
      simp only [refuses, Bool.false_eq_true, if_false, Stage.decision?]
      refine ⟨?_, spent.drop (Spent.loadOf_le_append _ _ _)⟩
      exact (endingInTurn_cons rule rest begun _).mpr ⟨_, reached, by simp [allows]⟩
  · have stays : Connective.goesOn .chain later = false := by simp [Connective.goesOn, waits]
    simp only [stays, Bool.false_eq_true, if_false, waits]
    refine ⟨Or.inr fun id => ?_, spent.append (.rested le_rfl ?_)⟩
    · exact .inTurn id [] rule rest begun begun later first rfl waits paces
    · intro entry member
      have fresh := (mem_awaitedOf_replicate rest (fun other _ => other.mem_awaited_fresh) entry member).2
      rw [fresh]
      trivial

theorem pollOperands_inTurn (rules : List Rule) (each : ∀ rule ∈ rules, rule.Punctual takes visit)
    (id : RuleId) (start : Nat) (stages : List Stage) (first : Option Decision) (state : State)
    (untied : UntiedInTurn visit.precedence takes rules start)
    (running : state.request.cancelled = false)
    (ready : stages = List.replicate rules.length .fresh ∧ start = visit.now ∨
      Paces visit.precedence takes visit.now (group id .chain rules) start (.group stages first)) :
    PassInTime visit (PassedInTurn takes visit rules start) rules stages state
      (pollOperands visit .chain rules stages first state) := by
  induction rules generalizing start stages first state with
  | nil =>
    rcases ready with ⟨rfl, rfl⟩ | paces
    · exact ⟨Or.inl ⟨rfl, rfl⟩, .rested le_rfl (by simp [awaitedAfter, awaitedOf, pollOperands])⟩
    · generalize empty : ([] : List Rule) = rules at paces
      cases paces with
      | inTurn => simp at empty
      | atOnce _ _ _ _ _ _ together => exact absurd rfl together
  | cons rule rest ih =>
    have others := ih fun other inside => each other (List.mem_cons_of_mem _ inside)
    have own := each rule List.mem_cons_self
    have head (stage : Stage) (waiting : stage.decision? = none)
        (ready : rule.Ready visit.precedence takes visit.now start stage) :=
      (own start stage state untied.1 ready running).inTurn waiting running first
        fun allowed first after still => others visit.now _ first after (untied.2 _ allowed) still
          (Or.inl ⟨rfl, rfl⟩)
    rcases ready with ⟨rfl, begun⟩ | paces
    · exact head .fresh rfl (Or.inl ⟨rfl, begun⟩)
    · generalize same : rule :: rest = rules at paces
      cases paces with
      | atOnce _ _ _ _ _ _ together => exact absurd rfl together
      | inTurn _ before operand behind _ begun stage _ allowed waiting inner =>
        cases before with
        | nil =>
          cases same
          cases allowed
          exact head stage waiting (Or.inr inner)
        | cons done before =>
          -- an operand that has allowed is passed over
          cases same
          obtain ⟨time, known, onward⟩ := endingInTurn_allowed allowed
          obtain ⟨passed, spent⟩ := others time _ (first.or (some .allow)) state (untied.2 time known)
            running (Or.inr (.inTurn id before operand behind time begun stage _ onward waiting inner))
          simp only [List.length_cons, List.replicate_succ, List.cons_append]
          rw [pollOperands_cons, poll_settled]
          exact ⟨passed.cons known, spent_cons (.rested le_rfl (by simp [awaited_settled])) spent⟩

theorem together_of_ready {id : RuleId} {connective : Connective} {operands : List Rule}
    {start : Nat} {stage : Stage} (atOnce : connective ≠ .chain) (waiting : stage.decision? = none)
    (ready : (group id connective operands).Ready precedence takes now start stage) :
    start ≤ now ∧
      Together (fun rule stage => rule.Ready precedence takes now start stage)
        (Ending.Leads (endings precedence takes operands start)) connective operands
        (stage.operands operands.length).1 (stage.operands operands.length).2 := by
  rcases ready with ⟨rfl, rfl⟩ | paces
  · refine ⟨le_rfl, by simp [Stage.operands], ?_, by simp [Stage.operands],
      by simp [Stage.operands], by simp [Stage.operands, Stage.decision?]⟩
    intro pair paired
    exact Or.inl ⟨List.eq_of_mem_replicate (List.of_mem_zip paired).2, rfl⟩
  · cases paces with
    | settled => cases waiting
    | inTurn => exact absurd rfl atOnce
    | atOnce _ _ _ _ stages first _ begun lengths inner undecided waits leads unreported =>
      exact ⟨begun, lengths, fun pair paired => Or.inr (inner pair paired), undecided, leads,
        unreported⟩

theorem Ready.inTurn {id : RuleId} {operands : List Rule} {start : Nat} {stage : Stage}
    (waiting : stage.decision? = none)
    (ready : (group id .chain operands).Ready precedence takes now start stage) :
    ((stage.operands operands.length).1 = List.replicate operands.length .fresh ∧ start = now) ∨
      Paces precedence takes now (group id .chain operands) start
        (.group (stage.operands operands.length).1 (stage.operands operands.length).2) := by
  rcases ready with ⟨rfl, begun⟩ | paces
  · exact Or.inl ⟨rfl, begun⟩
  · right
    cases paces with
    | settled => cases waiting
    | atOnce _ _ _ _ _ _ together => exact absurd rfl together
    | inTurn _ before operand behind _ begun stage first allowed waits inner =>
      exact .inTurn id before operand behind start begun stage first allowed waits inner

theorem leads_of_waiting {operands : List Rule} {stages : List Stage} {start : Nat}
    (lengths : operands.length = stages.length)
    (ready : ∀ pair ∈ operands.zip stages, pair.1.Ready precedence takes now start pair.2)
    (waiting : ∀ stage ∈ stages, stage.decision? = none) (operand : Rule) (member : operand ∈ operands)
    (decision : Decision)
    (reached : operand.ending precedence takes start = some ⟨now, decision⟩) :
    Ending.Leads (endings precedence takes operands start) decision := by
  refine ⟨now, ?_, fun other inside => ?_⟩
  · rw [endings_eq_map]
    exact List.mem_map.mpr ⟨operand, member, reached⟩
  -- nothing that waits has an ending in the past
  · obtain ⟨pair, paired, known⟩ := exists_stage lengths inside
    exact (ready pair paired).due (waiting _ (List.of_mem_zip paired).2) other known

theorem exists_reached {operands : List Rule} {decisions : List Decision} {start : Nat}
    (lengths : operands.length = decisions.length)
    (each : ∀ pair ∈ operands.zip decisions,
      ∃ time ≤ now, pair.1.ending precedence takes start = some ⟨time, pair.2⟩) :
    ∃ reached : List Ending, endings precedence takes operands start = reached.map some ∧
      reached.map Ending.decision = decisions ∧ ∀ ending ∈ reached, ending.time ≤ now := by
  induction operands generalizing decisions with
  | nil =>
    cases decisions with
    | nil => exact ⟨[], rfl, rfl, by simp⟩
    | cons decision decisions => cases lengths
  | cons operand operands ih =>
    cases decisions with
    | nil => cases lengths
    | cons decision decisions =>
      obtain ⟨reached, same, decided, past⟩ := ih (Nat.succ.inj lengths)
        fun pair paired => each pair (List.mem_cons_of_mem _ paired)
      obtain ⟨time, own, known⟩ := each _ List.mem_cons_self
      exact ⟨⟨time, decision⟩ :: reached, by simp [endings, known, same], by simp [decided],
        by simpa using ⟨own, past⟩⟩

section

variable {id : RuleId} {connective : Connective} {operands : List Rule} {start : Nat}
  {stage : Stage} {state after : State} {pass : Pass}

theorem InTime.of_pass (unsettled : stage.decision? = none)
    (spent : Spent visit.now (awaitedOf operands (stage.operands operands.length).1)
      (awaitedAfter operands pass) state.trace after.trace)
    (outcome : (group id connective operands).Arrives takes visit start
      (pass.stage connective visit.precedence)) :
    (group id connective operands).InTime takes visit start stage state
      (pass.stage connective visit.precedence, after) where
  paces := by
    rcases outcome with ⟨decision, settled, reached⟩ | ⟨_, paces⟩
    · rw [settled]
      exact .settled _ _ visit.now decision le_rfl reached
    · exact paces
  prompt := by
    intro decision same
    rcases outcome with ⟨other, settled, reached⟩ | ⟨waiting, _⟩
    · rw [settled] at same
      cases same
      exact Or.inr reached
    · dsimp only at same
      rw [same] at waiting
      cases waiting
  spent := by
    rw [awaited_group id connective operands stage unsettled]
    exact spent_group spent

theorem outcome_together (together : connective ≠ .chain) (unsettled : stage.decision? = none)
    (untied : (group id connective operands).Untied visit.precedence takes start)
    (ready : (group id connective operands).Ready visit.precedence takes visit.now start stage)
    (passed : PassedTogether takes visit
      (Ending.Leads (endings visit.precedence takes operands start)) connective operands start
      (stage.operands operands.length).2 pass) :
    (group id connective operands).Arrives takes visit start
      (pass.stage connective visit.precedence) := by
  obtain ⟨begun, before⟩ := together_of_ready together unsettled ready
  cases pass with
  | decided decision =>
    obtain ⟨decisive, reached⟩ := passed
    -- no decisive operand has ended before, so this one ends first
    have sooner := due_of_decisive before.lengths
      (fun pair paired decision settled => Ready.reached (settled ▸ before.each pair paired))
      (fun pair paired waits => (before.each pair paired).due waits) before.undecided
    exact Or.inl ⟨decision, rfl, ending_of_decided together id untied sooner decisive reached⟩
  | passed later reported =>
    obtain ⟨kept, _⟩ := passed
    simp only [Pass.stage]
    cases all : later.mapM Stage.decision? with
    | none =>
      exact Or.inr ⟨rfl, .atOnce id connective operands start later reported together begun
        kept.lengths kept.each kept.undecided ((Stage.mapM_decision?_eq_none later).mp all)
        kept.leads kept.unreported⟩
    | some decisions =>
      obtain rfl := (Stage.mapM_decision?_eq_some later decisions).mp all
      have each : ∀ pair ∈ operands.zip decisions, ∃ time ≤ visit.now,
          pair.1.ending visit.precedence takes start = some ⟨time, pair.2⟩ := by
        intro pair paired
        refine paces_settled (kept.each (pair.1, .settled pair.2) ?_)
        rw [List.zip_map_right]
        exact List.mem_map.mpr ⟨pair, paired, rfl⟩
      obtain ⟨reached, same, rfl, past⟩ := exists_reached (by simpa using kept.lengths) each
      refine Or.inl ⟨_, rfl, ending_of_concluded together id untied begun
        (fun ending known => ready.due unsettled ending known) same past ?_ kept.leads ?_⟩
      · intro ending member
        exact kept.undecided _ (List.mem_map_of_mem (List.mem_map_of_mem member))
      · intro none
        cases reached with
        | nil => rfl
        | cons ending others => cases kept.unreported none _ List.mem_cons_self

theorem outcome_inTurn (passed : PassedInTurn takes visit operands start pass) :
    (group id .chain operands).Arrives takes visit start (pass.stage .chain visit.precedence) := by
  cases pass with
  | decided decision => exact Or.inl ⟨decision, rfl, passed⟩
  | passed later first =>
    simp only [Pass.stage]
    rcases passed with ⟨rfl, reached⟩ | paces
    · have all : (List.replicate operands.length (Stage.settled .allow)).mapM Stage.decision? =
          some (List.replicate operands.length .allow) :=
        (Stage.mapM_decision?_eq_some _ _).mpr List.map_replicate.symm
      rw [all]
      exact Or.inl ⟨.allow, rfl, reached⟩
    · have waits : later.mapM Stage.decision? = none := by
        rw [Stage.mapM_decision?_eq_none]
        cases paces id with
        | atOnce _ _ _ _ _ _ together => exact absurd rfl together
        | inTurn _ _ _ _ _ _ stage _ _ waiting => exact ⟨stage, by simp, waiting⟩
      rw [waits]
      exact Or.inr ⟨rfl, paces id⟩

end

theorem inTime_settled (rule : Rule) (start : Nat) (decision : Decision) (state : State)
    (ready : rule.Ready visit.precedence takes visit.now start (.settled decision)) :
    rule.InTime takes visit start (.settled decision) state
      (rule.poll visit (.settled decision) state) := by
  rw [poll_settled]
  obtain ⟨time, past, reached⟩ := ready.reached
  exact ⟨.settled rule start time decision past reached, fun _ same => Or.inl same,
    .rested le_rfl (by simp [awaited_settled])⟩

theorem inTime_leaf {id : RuleId} {question : Question} {start : Nat} {stage : Stage}
    {flight : Flight} {state after : State} (unsettled : stage.decision? = none)
    (runs : flight.Runs question.name visit.now ((takes id).map (·.after start)))
    (spent : Spent visit.now [(id, question, stage)]
      ((leaf id question).awaited (Question.ownStage flight)) state.trace after.trace) :
    (leaf id question).InTime takes visit start stage state (Question.ownStage flight, after) := by
  have entries := awaited_leaf id question stage unsettled
  cases flight with
  | settled decision =>
    refine ⟨.settled _ _ visit.now decision le_rfl runs, fun other same => ?_, entries ▸ spent⟩
    cases same
    exact Or.inr runs
  | suspended suspension resume =>
    exact ⟨.leaf id question start _ rfl runs, fun other same => (by cases same), entries ▸ spent⟩

theorem inTime_not {operand : Rule} {start : Nat} {stage : Stage} {state : State}
    {result : Stage × State} (id : RuleId) (unsettled : stage.decision? = none)
    (inner : operand.InTime takes visit start stage state result) :
    (Rule.not id operand).InTime takes visit start stage state (result.1.negate, result.2) := by
  obtain ⟨later, after⟩ := result
  obtain ⟨paces, prompt, spent⟩ := inner
  have spent : Spent visit.now ((Rule.not id operand).awaited stage)
      ((Rule.not id operand).awaited later.negate) state.trace after.trace := by
    rwa [awaited_not, awaited_not, awaited_negate]
  rcases later.settled_or_waiting with ⟨decision, rfl⟩ | waiting
  · obtain ⟨time, past, reached⟩ := paces_settled paces
    refine ⟨.settled _ start time decision.negate past (by simp [Rule.ending, reached, Ending.negate_eq]),
      fun other same => ?_, spent⟩
    cases same
    rcases prompt decision rfl with rfl | known
    · cases unsettled
    · exact Or.inr (by simp [Rule.ending, known, Ending.negate_eq])
  · dsimp only at spent ⊢
    rw [Stage.negate_waiting later waiting] at spent ⊢
    refine ⟨.not id operand start later waiting paces, fun other same => ?_, spent⟩
    dsimp only at same
    rw [same] at waiting
    cases waiting

variable (visit) in
/-- A poll of a rule that keeps pace settles it exactly if its instant has come. -/
theorem poll_punctual (rule : Rule) (timed : rule.Timed takes) : rule.Punctual takes visit := by
  intro start stage state untied ready running
  induction rule, stage using inductStages generalizing start state with
  | settled rule decision => exact rule.inTime_settled start decision state ready
  | leaf id question stage unsettled =>
    obtain ⟨unshared, takes⟩ := timed (id, question) (List.mem_singleton_self _)
    rw [poll_leaf visit id question stage state unsettled]
    rcases ready with ⟨rfl, rfl⟩ | paces
    · have spent := question.poll_fresh_spent id visit state unshared running
      rw [Question.poll_fresh unshared running] at spent ⊢
      exact inTime_leaf rfl (question.launch_runs takes running) spent
    · cases paces with
      | settled => cases unsettled
      | leaf _ _ _ flight waiting runs =>
        have spent := question.poll_own_spent id visit state flight waiting running
        rw [Question.poll_own flight running] at spent ⊢
        exact inTime_leaf rfl (Flight.poll_runs runs) spent
  | not id operand stage unsettled ih =>
    rw [poll_not visit id operand stage state unsettled]
    refine inTime_not id unsettled (ih timed start state untied ?_ running)
    rcases ready with fresh | paces
    · exact Or.inl fresh
    · cases paces with
      | settled => cases unsettled
      | not _ _ _ _ waiting inner => exact Or.inr inner
  | group id connective operands stage unsettled ih =>
    have each : ∀ operand ∈ operands, operand.Punctual takes visit := by
      intro operand member start stage state untied ready running
      refine ih operand member stage ?_ start state untied ready running
      exact fun leaf inside => timed leaf ((mem_leavesOf operands leaf).mpr ⟨operand, member, inside⟩)
    rw [poll_group visit id connective operands stage state unsettled]
    -- the operands of a chain begin one after another, those of other groups at the start
    by_cases chain : connective = .chain
    · subst chain
      obtain ⟨passed, spent⟩ := pollOperands_inTurn operands each id start
        (stage.operands operands.length).1 (stage.operands operands.length).2 state untied running
        (ready.inTurn unsettled)
      exact .of_pass unsettled spent (outcome_inTurn passed)
    · obtain ⟨begun, before⟩ := together_of_ready chain unsettled ready
      have alone := (untied_group chain id operands start untied).1
      obtain ⟨passed, spent⟩ := pollOperands_together chain
        (Ending.Leads (endings visit.precedence takes operands start)) operands each start
        (stage.operands operands.length).1 (stage.operands operands.length).2 state
        alone.each running before
        fun none => leads_of_waiting before.lengths before.each (before.unreported none)
      exact .of_pass unsettled spent (outcome_together chain unsettled untied ready passed)

end Rule

end FieldGuard
