import FieldGuard.Proofs.Leaves
import FieldGuard.Proofs.Meaning

set_option autoImplicit false

namespace FieldGuard

namespace Rule

/-- The decisions to which a rule may come from this stage when its request is cancelled: a leaf
without an answer fails, and a group settles as it does with any other fault. Its operands may end in
any order, but a chain gets to an operand past others that allow. -/
inductive Interrupts (precedence : Precedence) : Rule → Stage → Decision → Prop
  | settled (rule : Rule) (decision : Decision) :
      Interrupts precedence rule (.settled decision) decision
  | leaf (id : RuleId) (question : Question) (stage : Stage) (unsettled : stage.decision? = none) :
      Interrupts precedence (.leaf id question) stage (.error .cancelled)
  | not (id : RuleId) (operand : Rule) (stage : Stage) (decision : Decision)
      (unsettled : stage.decision? = none) (inner : Interrupts precedence operand stage decision) :
      Interrupts precedence (.not id operand) stage decision.negate
  | decided (id : RuleId) (connective : Connective) (operands : List Rule) (stage : Stage)
      (before : List (Rule × Stage)) (operand : Rule) (own : Stage) (behind : List (Rule × Stage))
      (decision : Decision) (unsettled : stage.decision? = none)
      (among : operands.zip (stage.operands operands.length).1 =
        before ++ (operand, own) :: behind)
      (earlier : connective = .chain → ∀ pair ∈ before, Interrupts precedence pair.1 pair.2 .allow)
      (inner : Interrupts precedence operand own decision)
      (decisive : connective.isDecisive decision = true) :
      Interrupts precedence (.group id connective operands) stage decision
  | concluded (id : RuleId) (connective : Connective) (operands : List Rule) (stage : Stage)
      (decisions : List Decision) (next : Option Decision) (unsettled : stage.decision? = none)
      (inner : List.Forall₂ (fun pair decision => Interrupts precedence pair.1 pair.2 decision)
        (operands.zip (stage.operands operands.length).1) decisions)
      (exhausted : connective.Exhausted decisions next) :
      -- the group may have a first decision on record
      Interrupts precedence (.group id connective operands) stage
        (connective.conclude precedence decisions
          ((stage.operands operands.length).2.or next))

variable {precedence : Precedence}

theorem Interrupts.of_settled {rule : Rule} {decision reached : Decision}
    (interrupts : rule.Interrupts precedence (.settled decision) reached) : reached = decision := by
  cases interrupts <;> first | rfl | contradiction

theorem Interrupts.in_order (id : RuleId) (connective : Connective) (operands : List Rule)
    (stage : Stage) (unsettled : stage.decision? = none) (decide : Rule → Stage → Decision)
    (each : ∀ pair ∈ operands.zip (stage.operands operands.length).1,
      pair.1.Interrupts precedence pair.2 (decide pair.1 pair.2)) :
    (group id connective operands).Interrupts precedence stage
      (connective.settle precedence
        (List.zipWith decide operands (stage.operands operands.length).1)
        (stage.operands operands.length).2) := by
  have decisions : List.zipWith decide operands (stage.operands operands.length).1 =
      (operands.zip (stage.operands operands.length).1).map fun pair => decide pair.1 pair.2 := by
    rw [List.map_zip_eq_zipWith]
    rfl
  -- the first decisive operand ends first; without one, all of them end
  rw [Connective.settle, decisions, List.find?_map]
  cases found : (operands.zip (stage.operands operands.length).1).find?
      (connective.isDecisive ∘ fun pair => decide pair.1 pair.2) with
  | some pair =>
    obtain ⟨decisive, before, behind, among, earlier⟩ := List.find?_eq_some_iff_append.mp found
    refine .decided id connective operands stage before pair.1 pair.2 behind _ unsettled among ?_
      (each pair (by simp [among])) decisive
    intro chain other member
    subst chain
    have allows : decide other.1 other.2 = .allow :=
      (Decision.eq_allow_iff _).mpr (by simpa [Connective.isDecisive] using earlier other member)
    exact allows ▸ each other (by simp [among, member])
  | none =>
    refine .concluded id connective operands stage _ _ unsettled ?_ ⟨?_, ?_, ?_⟩
    · rw [List.forall₂_map_right_iff, List.forall₂_same]
      exact each
    · rintro decision member
      obtain ⟨pair, inside, rfl⟩ := List.mem_map.mp member
      simpa using List.find?_eq_none.mp found pair inside
    · exact fun decision reported => List.mem_of_mem_head? reported
    · exact List.head?_eq_none_iff.mp

variable (visit : Visit)

theorem poll_interrupted (rule : Rule) (stage : Stage) (state : State)
    (cancelled : state.request.cancelled = true) :
    ∃ decision, rule.Interrupts visit.precedence stage decision ∧
      rule.poll visit stage state = (.settled decision, state) := by
  induction rule, stage using inductStages with
  | settled rule decision => exact ⟨decision, .settled rule decision, poll_settled visit rule decision state⟩
  | leaf id question stage unsettled =>
    refine ⟨_, .leaf id question stage unsettled, ?_⟩
    rw [poll_leaf visit _ _ _ _ unsettled, question.poll_cancelled id visit stage state cancelled]
  | not id operand stage unsettled ih =>
    obtain ⟨decision, inner, same⟩ := ih
    refine ⟨decision.negate, .not id operand stage decision unsettled inner, ?_⟩
    rw [poll_not visit _ _ _ _ unsettled, same]
    rfl
  | group id connective operands stage unsettled ih =>
    have : Nonempty Decision := ⟨.allow⟩
    choose! decide inner same using ih
    obtain ⟨settled, still⟩ := poll_group_decided visit id connective operands stage unsettled
      (· = state) decide (fun pair member other unchanged => by
        rw [unchanged, same pair.1 (List.of_mem_zip member).1 pair.2]
        exact ⟨rfl, rfl⟩) state rfl
    refine ⟨_, .in_order id connective operands stage unsettled decide ?_, Prod.ext settled still⟩
    exact fun pair member => inner pair.1 (List.of_mem_zip member).1 pair.2

mutual

def hasAlternatives : Rule → Bool
  | .leaf _ _ => false
  | .not _ operand => operand.hasAlternatives
  | .group _ connective operands =>
      connective == .or || connective == .race || anyHasAlternatives operands

def anyHasAlternatives : List Rule → Bool
  | [] => false
  | rule :: rest => rule.hasAlternatives || anyHasAlternatives rest

end

mutual

/-- How polls leave a rule that waits: in every group some operand does, and none has decided it.
All operands have begun, but those of a chain only up to the first that waits. -/
def Begun : Rule → Stage → Prop
  | _, .settled _ => True
  | .leaf _ _, _ => True
  | .not _ operand, stage => operand.Begun stage
  | .group _ connective operands, .group stages _ =>
      (∃ stage ∈ stages, stage.decision? = none) ∧ BegunAll connective operands stages
  | .group _ _ _, _ => False

def BegunAll (connective : Connective) : List Rule → List Stage → Prop
  | rule :: rules, stage :: stages =>
      rule.Begun stage ∧
        (connective.goesOn stage = true ∧ BegunAll connective rules stages ∨
          connective = .chain ∧ stage.decision? = none)
  | _, [] => True
  | [], _ :: _ => False

end

theorem begun_settled (rule : Rule) (decision : Decision) : rule.Begun (.settled decision) := by
  cases rule <;> trivial

theorem begun_leaf (id : RuleId) (question : Question) (stage : Stage) :
    (leaf id question).Begun stage := by
  cases stage <;> trivial

theorem begun_not (id : RuleId) (operand : Rule) (stage : Stage) :
    (not id operand).Begun stage ↔ operand.Begun stage := by
  cases stage with
  | settled decision => simp [begun_settled]
  | _ => rfl

theorem pollOperands_begun (connective : Connective) (rules : List Rule)
    (each : ∀ rule ∈ rules, ∀ stage state, rule.Begun (rule.poll visit stage state).1)
    (stages : List Stage) (first : Option Decision) (state : State) (later : List Stage)
    (reported : Option Decision)
    (passed : (pollOperands visit connective rules stages first state).1 = .passed later reported) :
    BegunAll connective rules later := by
  induction rules generalizing stages first state later with
  | nil =>
    simp only [pollOperands, Pass.passed.injEq] at passed
    rw [← passed.1]
    trivial
  | cons rule rules ih =>
    cases stages with
    | nil =>
      simp only [pollOperands, Pass.passed.injEq] at passed
      rw [← passed.1]
      trivial
    | cons stage stages =>
      have own := each rule List.mem_cons_self stage state
      rw [pollOperands_cons] at passed
      generalize rule.poll visit stage state = polled at own passed
      obtain ⟨left, after⟩ := polled
      dsimp only at own passed
      by_cases onward : connective.goesOn left = true
      · simp only [onward, if_true] at passed
        cases rest : (pollOperands visit connective rules stages (first.or left.decision?) after).1 with
        | decided decision => simp [rest, Pass.cons] at passed
        | passed others reported' =>
          simp only [rest, Pass.cons, Pass.passed.injEq] at passed
          obtain ⟨rfl, rfl⟩ := passed
          exact ⟨own, Or.inl ⟨onward, ih (fun other inside => each other (List.mem_cons_of_mem _ inside))
            stages _ _ others rest⟩⟩
      · simp only [onward, Bool.false_eq_true, if_false] at passed
        rcases left.settled_or_waiting with ⟨decision, rfl⟩ | waiting
        · simp [Stage.decision?] at passed
        -- only a chain stops at an operand that waits
        · simp only [waiting, Pass.passed.injEq] at passed
          rw [← passed.1]
          exact ⟨own, Or.inr ⟨by simpa [Connective.goesOn, waiting] using onward, waiting⟩⟩

theorem poll_begun (rule : Rule) (stage : Stage) (state : State) :
    rule.Begun (rule.poll visit stage state).1 := by
  induction rule, stage using inductStages generalizing state with
  | settled rule decision =>
    rw [poll_settled]
    exact begun_settled rule decision
  | leaf id question stage unsettled => exact begun_leaf id question _
  | not id operand stage unsettled ih =>
    rw [poll_not visit _ _ _ _ unsettled, begun_not]
    rcases (operand.poll visit stage state).1.settled_or_waiting with ⟨decision, same⟩ | waiting
    · rw [same]
      exact begun_settled operand _
    · rw [Stage.negate_waiting _ waiting]
      exact ih state
  | group id connective operands stage unsettled ih =>
    rw [poll_group visit _ _ _ _ _ unsettled]
    dsimp only
    cases pass : (pollOperands visit connective operands (stage.operands operands.length).1
        (stage.operands operands.length).2 state).1 with
    | decided decision => exact begun_settled _ decision
    | passed later reported =>
      simp only [Pass.stage]
      cases settled : later.mapM Stage.decision? with
      | some decisions => exact begun_settled _ _
      | none =>
        exact ⟨(Stage.mapM_decision?_eq_none later).mp settled,
          pollOperands_begun visit connective operands ih _ _ state later reported pass⟩

theorem anyHasAlternatives_eq (rules : List Rule) :
    anyHasAlternatives rules = rules.any hasAlternatives := by
  induction rules with
  | nil => rfl
  | cons rule rest ih => simp [anyHasAlternatives, ih]

section

variable {connective : Connective} {rules : List Rule}
  (each : ∀ rule ∈ rules, ∀ stage decision, rule.Begun stage → stage.decision? = none →
    rule.Interrupts precedence stage decision → decision = .error .cancelled)
  {stages : List Stage} (begun : BegunAll connective rules stages)

include each begun

theorem BegunAll.decided (before : List (Rule × Stage)) (operand : Rule) (own : Stage)
    (behind : List (Rule × Stage)) (decision : Decision)
    (among : rules.zip stages = before ++ (operand, own) :: behind)
    (earlier : connective = .chain → ∀ pair ∈ before, pair.1.Interrupts precedence pair.2 .allow)
    (inner : operand.Interrupts precedence own decision)
    (decisive : connective.isDecisive decision = true) : decision = .error .cancelled := by
  induction rules generalizing stages before with
  | nil => simp at among
  | cons rule rules ih =>
    cases stages with
    | nil => simp at among
    | cons stage stages =>
      have first := each rule List.mem_cons_self stage
      obtain ⟨head, onward⟩ := begun
      cases before with
      | nil =>
        obtain ⟨⟨rfl, rfl⟩, -⟩ := by simpa using among
        rcases stage.settled_or_waiting with ⟨reached, rfl⟩ | waiting
        · rcases onward with ⟨onward, -⟩ | ⟨-, waiting⟩
          · rw [inner.of_settled, goesOn_undecided onward reached rfl] at decisive
            cases decisive
          · cases waiting
        · exact first decision head waiting inner
      | cons pair before =>
        obtain ⟨rfl, rest⟩ := by simpa using among
        rcases onward with ⟨-, others⟩ | ⟨chain, waiting⟩
        · exact ih (fun other inside => each other (List.mem_cons_of_mem _ inside)) others before
            rest (fun chain pair inside => earlier chain pair (List.mem_cons_of_mem _ inside))
        -- the chain would have to get past an operand that reports the cancellation
        · cases first .allow head waiting (earlier chain (rule, stage) List.mem_cons_self)

theorem BegunAll.not_concluded (decisive : connective.isDecisive (.error .cancelled) = true)
    (waits : ∃ stage ∈ stages, stage.decision? = none) (decisions : List Decision)
    (inner : List.Forall₂ (fun pair decision => Interrupts precedence pair.1 pair.2 decision)
      (rules.zip stages) decisions)
    (undecided : ∀ decision ∈ decisions, connective.isDecisive decision = false) : False := by
  induction rules generalizing stages decisions with
  | nil =>
    cases stages with
    | nil => simp at waits
    | cons stage stages => cases begun
  | cons rule rules ih =>
    cases stages with
    | nil => simp at waits
    | cons stage stages =>
      obtain ⟨head, onward⟩ := begun
      cases inner with
      | cons own inner =>
        rename_i decision decisions
        rcases stage.settled_or_waiting with ⟨reached, rfl⟩ | waiting
        · rcases onward with ⟨-, others⟩ | ⟨-, waiting⟩
          · refine ih (fun other inside => each other (List.mem_cons_of_mem _ inside)) others ?_
              decisions inner fun other member => undecided other (List.mem_cons_of_mem _ member)
            simpa [Stage.decision?] using waits
          · cases waiting
        -- an operand that waits reports the cancellation, which is decisive
        · rw [each rule List.mem_cons_self stage decision head waiting own] at undecided
          have weak := undecided _ List.mem_cons_self
          rw [decisive] at weak
          cases weak

end

theorem Interrupts.of_begun {rule : Rule} {stage : Stage} {decision : Decision}
    (conjunctive : rule.hasAlternatives = false) (begun : rule.Begun stage)
    (waiting : stage.decision? = none) (interrupts : rule.Interrupts precedence stage decision) :
    decision = .error .cancelled := by
  -- the leaves that wait fail, and without alternatives nothing above them keeps the fault back
  induction rule, stage using inductStages generalizing decision with
  | settled rule decision => cases waiting
  | leaf id question stage unsettled =>
    cases interrupts with
    | settled => cases unsettled
    | leaf => rfl
  | not id operand stage unsettled ih =>
    cases interrupts with
    | settled => cases unsettled
    | not _ _ _ decision _ inner =>
      rw [ih conjunctive ((begun_not id operand stage).mp begun) waiting inner]
      rfl
  | group id connective operands stage unsettled ih =>
    simp only [hasAlternatives, anyHasAlternatives_eq, Bool.or_eq_false_iff, List.any_eq_false] at conjunctive
    obtain ⟨⟨notOr, notRace⟩, inside⟩ := conjunctive
    have decisive : connective.isDecisive (.error .cancelled) = true := by
      cases connective with
      | and => rfl
      | chain => rfl
      | or => cases notOr
      | race => cases notRace
    have each (operand : Rule) (member : operand ∈ operands) (stage : Stage) (decision : Decision)
        (begun : operand.Begun stage) (waiting : stage.decision? = none)
        (interrupts : operand.Interrupts precedence stage decision) : decision = .error .cancelled :=
      ih operand member stage (by simpa using inside operand member) begun waiting interrupts
    cases stage with
    | group stages first =>
      obtain ⟨waits, all⟩ := begun
      cases interrupts with
      | decided _ _ _ _ before operand own behind _ _ among earlier inner decides =>
        exact all.decided each before operand own behind decision among earlier inner decides
      | concluded _ _ _ _ decisions next _ inner exhausted =>
        cases all.not_concluded each decisive waits decisions inner exhausted.undecided
    | settled decision => cases unsettled
    | _ => cases begun

end Rule

end FieldGuard
