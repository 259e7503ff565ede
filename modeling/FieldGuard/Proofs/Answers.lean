import FieldGuard.Proofs.Polls
import Mathlib.Data.List.Forall2

set_option autoImplicit false

namespace FieldGuard

/-- All operands of a group have decided, and none of them the group. If there are any, one of their
decisions was the first. -/
structure Connective.Exhausted (connective : Connective) (decisions : List Decision)
    (first : Option Decision) : Prop where
  undecided : ∀ decision ∈ decisions, connective.isDecisive decision = false
  reported : ∀ decision, first = some decision → decision ∈ decisions
  unreported : first = none → decisions = []

namespace Rule

/-- An evaluation comes to a decision when a decisive operand decides a group, or all operands of it
have decided and none is decisive. A chain gets to an operand past others that allow. -/
inductive Yields (reply : RuleId → Decision → Prop) (precedence : Precedence) :
    Rule → Decision → Prop
  | leaf (id : RuleId) (question : Question) (decision : Decision) (given : reply id decision) :
      Yields reply precedence (.leaf id question) decision
  | not (id : RuleId) (operand : Rule) (decision : Decision)
      (inner : Yields reply precedence operand decision) :
      Yields reply precedence (.not id operand) decision.negate
  | decided (id : RuleId) (connective : Connective) (before : List Rule) (operand : Rule)
      (behind : List Rule) (decision : Decision)
      (earlier : connective = .chain → ∀ other ∈ before, Yields reply precedence other .allow)
      (inner : Yields reply precedence operand decision)
      (decisive : connective.isDecisive decision = true) :
      Yields reply precedence (.group id connective (before ++ operand :: behind)) decision
  | concluded (id : RuleId) (connective : Connective) (operands : List Rule)
      (decisions : List Decision) (first : Option Decision)
      (inner : List.Forall₂ (Yields reply precedence) operands decisions)
      (exhausted : connective.Exhausted decisions first) :
      Yields reply precedence (.group id connective operands)
        (connective.conclude precedence decisions first)

theorem exists_operand {reply : RuleId → Decision → Prop} {precedence : Precedence}
    {operands : List Rule} {decisions : List Decision}
    (each : List.Forall₂ (Yields reply precedence) operands decisions) (decision : Decision)
    (member : decision ∈ decisions) :
    ∃ operand ∈ operands, operand.Yields reply precedence decision := by
  induction each with
  | nil => cases member
  | @cons operand own operands others yields rest ih =>
    rcases List.mem_cons.mp member with rfl | inside
    · exact ⟨operand, List.mem_cons_self, yields⟩
    · obtain ⟨other, found, yields⟩ := ih inside
      exact ⟨other, List.mem_cons_of_mem _ found, yields⟩

theorem map_operands {α : Type} {reply : RuleId → Decision → Prop} {precedence : Precedence}
    {operands : List Rule} {decisions : List Decision}
    (each : List.Forall₂ (Yields reply precedence) operands decisions) (ofRule : Rule → α)
    (ofDecision : Decision → α)
    (same : ∀ operand ∈ operands, ∀ decision ∈ decisions,
      operand.Yields reply precedence decision → ofDecision decision = ofRule operand) :
    operands.map ofRule = decisions.map ofDecision := by
  induction each with
  | nil => rfl
  | @cons operand decision operands decisions yields rest ih =>
    have others := ih fun other member answer given =>
      same other (List.mem_cons_of_mem _ member) answer (List.mem_cons_of_mem _ given)
    have own := same operand List.mem_cons_self decision List.mem_cons_self yields
    rw [List.map_cons, List.map_cons, others, own]

theorem Yields.mono {reply wider : RuleId → Decision → Prop} {precedence : Precedence} {rule : Rule}
    {decision : Decision}
    (gives : ∀ leaf ∈ rule.leaves, ∀ answer, reply leaf.1 answer → wider leaf.1 answer)
    (yields : rule.Yields reply precedence decision) : rule.Yields wider precedence decision := by
  induction rule generalizing decision with
  | leaf id question =>
    cases yields with
    | leaf _ _ _ given =>
      exact .leaf id question decision (gives _ (List.mem_singleton_self _) decision given)
  | not id operand ih =>
    cases yields with
    | not _ _ inner yields => exact .not id operand inner (ih gives yields)
  | group id connective operands ih =>
    have each (operand : Rule) (found : operand ∈ operands) (decision : Decision)
        (yields : operand.Yields reply precedence decision) :
        operand.Yields wider precedence decision :=
      ih operand found
        (fun leaf inside => gives leaf ((mem_leavesOf operands leaf).mpr ⟨operand, found, inside⟩))
        yields
    cases yields with
    | decided _ _ before operand behind _ earlier inner decisive =>
      refine .decided id connective before operand behind decision ?_ ?_ decisive
      · exact fun chain other member => each other (by simp [member]) .allow (earlier chain other member)
      · exact each operand (by simp) decision inner
    | concluded _ _ _ decisions first inner exhausted =>
      -- membership of the operands is needed for the leaves, so it goes along with their decisions
      have members := (List.forall₂_and_left operands decisions).mpr ⟨fun _ member => member, inner⟩
      exact .concluded id connective operands decisions first
        (members.imp fun operand decision both => each operand both.1 decision both.2) exhausted

end Rule

structure Connective.Tally (connective : Connective) (stages : List Stage)
    (first : Option Decision) : Prop where
  undecided : ∀ decision, .settled decision ∈ stages → connective.isDecisive decision = false
  reported : ∀ decision, first = some decision → .settled decision ∈ stages
  unreported : first = none → ∀ stage ∈ stages, stage.decision? = none

theorem Stage.decision?_eq_some {stage : Stage} {decision : Decision} :
    stage.decision? = some decision ↔ stage = .settled decision := by
  cases stage <;> simp [Stage.decision?]

theorem Stage.negate_waiting (stage : Stage) (waiting : stage.decision? = none) :
    stage.negate = stage := by
  cases stage <;> first | rfl | cases waiting

theorem Stage.mapM_decision?_eq_some (stages : List Stage) (decisions : List Decision) :
    stages.mapM decision? = some decisions ↔ stages = decisions.map .settled := by
  induction stages generalizing decisions with
  | nil => cases decisions <;> simp
  | cons stage rest ih =>
    simp only [List.mapM_cons, Option.bind_eq_bind, Option.bind_eq_some_iff, Option.pure_def, ih,
      decision?_eq_some, Option.some.injEq]
    constructor
    · rintro ⟨decision, rfl, others, rfl, rfl⟩
      rfl
    · intro same
      cases decisions with
      | nil => cases same
      | cons decision others =>
        simp only [List.map_cons, List.cons.injEq] at same
        exact ⟨decision, same.1, others, same.2, rfl⟩

theorem Stage.mapM_decision?_eq_none (stages : List Stage) :
    stages.mapM decision? = none ↔ ∃ stage ∈ stages, stage.decision? = none := by
  induction stages with
  | nil => simp
  | cons stage rest ih =>
    cases known : stage.decision? <;> cases others : rest.mapM decision? <;>
      simp_all [List.mapM_cons]

namespace Connective

def settle (connective : Connective) (precedence : Precedence) (decisions : List Decision)
    (first : Option Decision) : Decision :=
  match decisions.find? connective.isDecisive with
  | some decision => decision
  | none => connective.conclude precedence decisions (first.or decisions.head?)

variable (connective : Connective)

theorem tally_fresh (count : Nat) : connective.Tally (List.replicate count .fresh) none where
  undecided := by simp
  reported := by simp
  unreported := by
    intro _ stage member
    rw [List.eq_of_mem_replicate member]
    rfl

theorem Tally.exhausted {connective : Connective} {decisions : List Decision}
    {first : Option Decision} (tally : connective.Tally (decisions.map .settled) first) :
    connective.Exhausted decisions first where
  undecided := fun decision member => tally.undecided decision (by simpa using member)
  reported := fun decision same => by simpa using tally.reported decision same
  unreported := by
    intro unreported
    cases decisions with
    | nil => rfl
    | cons decision others => cases tally.unreported unreported (.settled decision) (by simp)

theorem Tally.advance {connective : Connective} {before behind : List Stage} {stage : Stage}
    {first : Option Decision} (tally : connective.Tally (before ++ stage :: behind) first)
    (later : Stage)
    (lasts : ∀ decision, stage = .settled decision → later = .settled decision)
    (undecided : ∀ decision, later = .settled decision → connective.isDecisive decision = false) :
    connective.Tally (before ++ later :: behind) (first.or later.decision?) where
  undecided := by
    intro decision member
    simp only [List.mem_append, List.mem_cons] at member
    rcases member with old | own | old
    · exact tally.undecided decision (by simp [old])
    · exact undecided decision own.symm
    · exact tally.undecided decision (by simp [old])
  reported := by
    intro decision same
    cases first with
    | none =>
      have own : later = .settled decision := Stage.decision?_eq_some.mp (by simpa using same)
      simp [own]
    | some known =>
      have known := tally.reported decision (by simpa using same)
      simp only [List.mem_append, List.mem_cons] at known ⊢
      rcases known with old | own | old
      · exact Or.inl old
      · exact Or.inr (Or.inl (lasts decision own.symm).symm)
      · exact Or.inr (Or.inr old)
  unreported := by
    intro unreported other member
    -- nothing was reported before, and the operand that went on still waits
    obtain ⟨none, waiting⟩ := Option.or_eq_none_iff.mp unreported
    simp only [List.mem_append, List.mem_cons] at member
    rcases member with old | rfl | old
    · exact tally.unreported none other (by simp [old])
    · exact waiting
    · exact tally.unreported none other (by simp [old])

end Connective

namespace Rule

variable (reply : RuleId → Decision → Prop) (precedence : Precedence)

mutual

def Sound : Rule → Stage → Prop
  | rule, .settled decision => rule.Yields reply precedence decision
  | .leaf _ _, _ => True
  | .not _ operand, stage => operand.Sound stage
  | .group _ connective operands, .group stages first =>
      SoundAll operands stages ∧ connective.Tally stages first
  | .group _ _ _, _ => True

def SoundAll : List Rule → List Stage → Prop
  | rule :: rules, stage :: stages => rule.Sound stage ∧ SoundAll rules stages
  | [], [] => True
  | _, _ => False

end

theorem sound_settled (rule : Rule) (decision : Decision) :
    rule.Sound reply precedence (.settled decision) ↔ rule.Yields reply precedence decision := by
  cases rule <;> simp [Sound]

theorem sound_leaf (id : RuleId) (question : Question) (stage : Stage)
    (unsettled : stage.decision? = none) : (leaf id question).Sound reply precedence stage := by
  cases stage <;> trivial

theorem sound_not (id : RuleId) (operand : Rule) (stage : Stage) (unsettled : stage.decision? = none) :
    (not id operand).Sound reply precedence stage ↔ operand.Sound reply precedence stage := by
  cases stage <;> simp_all [Sound, Stage.decision?]

theorem sound_fresh (rule : Rule) : rule.Sound reply precedence .fresh := by
  induction rule with
  | leaf id question => trivial
  | not id operand ih => exact ih
  | group id connective operands ih => trivial

theorem soundAll_fresh (rules : List Rule) :
    SoundAll reply precedence rules (List.replicate rules.length .fresh) := by
  induction rules with
  | nil => trivial
  | cons rule rules ih => exact ⟨rule.sound_fresh reply precedence, ih⟩

theorem sound_operands (id : RuleId) (connective : Connective) (operands : List Rule)
    (stage : Stage) (unsettled : stage.decision? = none)
    (sound : (group id connective operands).Sound reply precedence stage) :
    SoundAll reply precedence operands (stage.operands operands.length).1 ∧
      connective.Tally (stage.operands operands.length).1 (stage.operands operands.length).2 := by
  cases stage with
  | settled decision => cases unsettled
  | group stages first => exact sound
  | fresh => exact ⟨soundAll_fresh reply precedence operands, connective.tally_fresh _⟩
  | shared key => exact ⟨soundAll_fresh reply precedence operands, connective.tally_fresh _⟩
  | own flight => exact ⟨soundAll_fresh reply precedence operands, connective.tally_fresh _⟩

variable {reply precedence}

theorem SoundAll.yields {rules : List Rule} {decisions : List Decision}
    (sound : SoundAll reply precedence rules (decisions.map .settled)) :
    List.Forall₂ (Yields reply precedence) rules decisions := by
  induction rules generalizing decisions with
  | nil =>
    cases decisions with
    | nil => exact .nil
    | cons decision others => cases sound
  | cons rule rules ih =>
    cases decisions with
    | nil => cases sound
    | cons decision others =>
      exact .cons ((sound_settled reply precedence rule decision).mp sound.1) (ih sound.2)

def Heard (reply : RuleId → Decision → Prop) (probes : List Probe) : Prop :=
  ∀ probe ∈ probes, ∀ decision, probe.reply = .settled decision → reply probe.id decision

def PassSound (reply : RuleId → Decision → Prop) (precedence : Precedence)
    (connective : Connective) (rules : List Rule) (before : List Stage) : Pass → Prop
  | .decided decision =>
      ∃ others operand behind, rules = others ++ operand :: behind ∧
        operand.Yields reply precedence decision ∧ connective.isDecisive decision = true ∧
        (connective = .chain → ∀ other ∈ others, other.Yields reply precedence .allow)
  | .passed stages first =>
      SoundAll reply precedence rules stages ∧ connective.Tally (before ++ stages) first

theorem goesOn_chain {stage : Stage} (onward : Connective.goesOn .chain stage = true) :
    stage = .settled .allow := by
  cases stage with
  | settled decision =>
    cases decision <;> simp_all [Connective.goesOn, Stage.decision?, Connective.isDecisive,
      Decision.isAllowed]
  | _ => simp [Connective.goesOn, Stage.decision?] at onward

theorem goesOn_undecided {connective : Connective} {stage : Stage}
    (onward : connective.goesOn stage = true) (decision : Decision)
    (settled : stage = .settled decision) : connective.isDecisive decision = false := by
  subst settled
  simpa [Connective.goesOn, Stage.decision?] using onward

theorem pollOperands_sound (visit : Visit) (connective : Connective) (rules : List Rule)
    (each : ∀ rule ∈ rules, ∀ stage state, rule.Sound reply precedence stage →
      Heard reply (rule.probes visit stage state) →
        rule.Sound reply precedence (rule.poll visit stage state).1)
    (before stages : List Stage) (first : Option Decision) (state : State)
    (sound : SoundAll reply precedence rules stages)
    (tally : connective.Tally (before ++ stages) first)
    (heard : Heard reply (probesOf visit connective rules stages state)) :
    PassSound reply precedence connective rules before
      (pollOperands visit connective rules stages first state).1 := by
  induction rules generalizing before stages first state with
  | nil =>
    cases stages with
    | nil => exact ⟨trivial, tally⟩
    | cons stage stages => cases sound
  | cons rule rules ih =>
    cases stages with
    | nil => cases sound
    | cons stage stages =>
      simp only [probesOf] at heard
      have own : rule.Sound reply precedence (rule.poll visit stage state).1 :=
        each rule List.mem_cons_self stage state sound.1
          (fun probe member => heard probe (List.mem_append_left _ member))
      have lasts : ∀ decision, stage = .settled decision →
          (rule.poll visit stage state).1 = .settled decision := by
        rintro decision rfl
        rw [poll_settled]
      rw [pollOperands_cons]
      generalize polled : rule.poll visit stage state = result at heard own lasts
      obtain ⟨later, after⟩ := result
      simp only at heard own lasts ⊢
      -- the operands before are part of the tally, so it has to grow by the one just polled
      by_cases onward : connective.goesOn later = true
      · simp only [onward, if_true] at heard ⊢
        have advanced := tally.advance later lasts (goesOn_undecided onward)
        have rest := ih (fun other inside => each other (List.mem_cons_of_mem _ inside))
          (before ++ [later]) stages (first.or later.decision?) after sound.2
          (by simpa using advanced) (fun probe member => heard probe (List.mem_append_right _ member))
        generalize (pollOperands visit connective rules stages (first.or later.decision?) after).1 =
          pass at rest
        cases pass with
        | decided decision =>
          obtain ⟨others, operand, behind, rfl, yields, decisive, earlier⟩ := rest
          refine ⟨rule :: others, operand, behind, rfl, yields, decisive, ?_⟩
          -- a chain went past the operand only because it allowed
          rintro rfl other member
          rcases List.mem_cons.mp member with rfl | inside
          · rw [goesOn_chain onward] at own
            exact (sound_settled reply precedence _ _).mp own
          · exact earlier rfl other inside
        | passed others reported => exact ⟨⟨own, rest.1⟩, by simpa using rest.2⟩
      · simp only [onward, Bool.false_eq_true, if_false]
        rcases later.settled_or_waiting with ⟨decision, rfl⟩ | waiting
        -- the pass stops here: the operand decides, or a chain waits for it
        · have decisive : connective.isDecisive decision = true := by
            simpa [Connective.goesOn, Stage.decision?] using onward
          have yields := (sound_settled reply precedence _ _).mp own
          exact ⟨[], rule, rules, rfl, yields, decisive, by simp⟩
        · simp only [waiting]
          have advanced := tally.advance later lasts
            (fun decision settled => by simp [settled, Stage.decision?] at waiting)
          exact ⟨⟨own, sound.2⟩, by simpa [waiting] using advanced⟩

/-- Polls come to decisions to which the answers of the leaves lead, and to no others. -/
theorem poll_sound (visit : Visit) (same : visit.precedence = precedence) (rule : Rule)
    (stage : Stage) (state : State) (sound : rule.Sound reply precedence stage)
    (heard : Heard reply (rule.probes visit stage state)) :
    rule.Sound reply precedence (rule.poll visit stage state).1 := by
  induction rule, stage using inductStages generalizing state with
  | settled rule decision => rwa [poll_settled]
  | leaf id question stage unsettled =>
    rw [probes_leaf visit _ _ _ _ unsettled] at heard
    rw [poll_leaf visit _ _ _ _ unsettled]
    rcases (question.poll id visit stage state).1.settled_or_waiting with ⟨decision, same⟩ | waiting
    · rw [same]
      exact .leaf id question decision (heard _ (List.mem_singleton_self _) decision same)
    · exact sound_leaf reply precedence id question _ waiting
  | not id operand stage unsettled ih =>
    rw [probes_not visit _ _ _ _ unsettled] at heard
    rw [poll_not visit _ _ _ _ unsettled]
    have later := ih state ((sound_not reply precedence _ _ _ unsettled).mp sound) heard
    rcases (operand.poll visit stage state).1.settled_or_waiting with ⟨decision, same⟩ | waiting
    · rw [same] at later ⊢
      exact .not id operand decision ((sound_settled reply precedence _ _).mp later)
    · rw [Stage.negate_waiting _ waiting]
      exact (sound_not reply precedence id operand _ waiting).mpr later
  | group id connective operands stage unsettled ih =>
    rw [probes_group visit _ _ _ _ _ unsettled] at heard
    rw [poll_group visit _ _ _ _ _ unsettled]
    obtain ⟨stages, tally⟩ := sound_operands reply precedence id connective operands stage unsettled
      sound
    have pass := pollOperands_sound visit connective operands ih [] _ _ state stages tally heard
    simp only
    generalize (pollOperands visit connective operands (stage.operands operands.length).1
      (stage.operands operands.length).2 state).1 = passed at pass
    cases passed with
    | decided decision =>
      obtain ⟨others, operand, behind, rfl, yields, decisive, earlier⟩ := pass
      exact .decided id connective others operand behind decision earlier yields decisive
    | passed later first =>
      obtain ⟨each, tally⟩ := pass
      simp only [Pass.stage]
      cases settled : later.mapM Stage.decision? with
      -- while an operand waits, the pass is the stage of the group and the tally is kept there
      | none => exact ⟨each, tally⟩
      | some decisions =>
        rw [(Stage.mapM_decision?_eq_some _ _).mp settled] at each tally
        rw [same]
        exact .concluded id connective operands decisions first each.yields tally.exhausted

def PassSettled : Pass → Prop
  | .decided _ => True
  | .passed stages _ => ∃ decisions : List Decision, stages = decisions.map .settled

theorem PassSettled.stage {pass : Pass} (settled : PassSettled pass) (connective : Connective)
    (precedence : Precedence) : ∃ decision, pass.stage connective precedence = .settled decision := by
  cases pass with
  | decided decision => exact ⟨decision, rfl⟩
  | passed stages first =>
    obtain ⟨decisions, same⟩ := settled
    refine ⟨connective.conclude precedence decisions first, ?_⟩
    simp only [Pass.stage, (Stage.mapM_decision?_eq_some stages decisions).mpr same]

theorem pollOperands_settles (visit : Visit) (connective : Connective) (rules : List Rule)
    (each : ∀ rule ∈ rules, ∀ stage state,
      (∀ probe ∈ rule.probes visit stage state, ∃ decision, probe.reply = .settled decision) →
        ∃ decision, (rule.poll visit stage state).1 = .settled decision)
    (stages : List Stage) (first : Option Decision) (state : State)
    (settled : ∀ probe ∈ probesOf visit connective rules stages state,
      ∃ decision, probe.reply = .settled decision) :
    PassSettled (pollOperands visit connective rules stages first state).1 := by
  induction rules generalizing stages first state with
  | nil => cases stages <;> exact ⟨[], rfl⟩
  | cons rule rules ih =>
    cases stages with
    | nil => exact ⟨[], rfl⟩
    | cons stage stages =>
      simp only [probesOf] at settled
      obtain ⟨decision, own⟩ := each rule List.mem_cons_self stage state
        (fun probe member => settled probe (List.mem_append_left _ member))
      rw [pollOperands_cons]
      by_cases onward : connective.goesOn (.settled decision) = true
      · simp only [own, onward, if_true] at settled ⊢
        have rest := ih (fun other inside => each other (List.mem_cons_of_mem _ inside)) stages
          (first.or (Stage.settled decision).decision?) (rule.poll visit stage state).2
          (fun probe member => settled probe (List.mem_append_right _ member))
        generalize (pollOperands visit connective rules stages _ _).1 = pass at rest ⊢
        cases pass with
        | decided other => exact trivial
        | passed others reported =>
          obtain ⟨decisions, rfl⟩ := rest
          exact ⟨decision :: decisions, rfl⟩
      -- an operand that has settled stops the pass only by deciding it
      · simp only [own, onward, Bool.false_eq_true, if_false]
        exact trivial

theorem poll_settles (visit : Visit) (rule : Rule) (stage : Stage) (state : State)
    (settled : ∀ probe ∈ rule.probes visit stage state, ∃ decision, probe.reply = .settled decision) :
    ∃ decision, (rule.poll visit stage state).1 = .settled decision := by
  induction rule, stage using inductStages generalizing state with
  | settled rule decision => exact ⟨decision, by rw [poll_settled]⟩
  | leaf id question stage unsettled =>
    rw [probes_leaf visit _ _ _ _ unsettled] at settled
    rw [poll_leaf visit _ _ _ _ unsettled]
    exact settled _ (List.mem_singleton_self _)
  | not id operand stage unsettled ih =>
    rw [probes_not visit _ _ _ _ unsettled] at settled
    rw [poll_not visit _ _ _ _ unsettled]
    obtain ⟨decision, same⟩ := ih state settled
    exact ⟨decision.negate, by rw [same]; rfl⟩
  | group id connective operands stage unsettled ih =>
    rw [probes_group visit _ _ _ _ _ unsettled] at settled
    rw [poll_group visit _ _ _ _ _ unsettled]
    exact (pollOperands_settles visit connective operands ih _ _ state settled).stage connective
      visit.precedence

theorem pollOperands_decided (visit : Visit) (connective : Connective) (Holds : State → Prop)
    (decide : Rule → Stage → Decision) (rules : List Rule) (stages : List Stage)
    (each : ∀ pair ∈ rules.zip stages, ∀ state, Holds state →
      (pair.1.poll visit pair.2 state).1 = .settled (decide pair.1 pair.2) ∧
        Holds (pair.1.poll visit pair.2 state).2)
    (first : Option Decision) (state : State) (holds : Holds state) :
    (pollOperands visit connective rules stages first state).1 =
        (let decisions := List.zipWith decide rules stages
        match decisions.find? connective.isDecisive with
        | some decision => .decided decision
        | none => .passed (decisions.map .settled) (first.or decisions.head?)) ∧
      Holds (pollOperands visit connective rules stages first state).2 := by
  induction rules generalizing stages first state with
  | nil => cases stages <;> simp [pollOperands, holds]
  | cons rule rules ih =>
    cases stages with
    | nil => simp [pollOperands, holds]
    | cons stage stages =>
      obtain ⟨settled, held⟩ := each (rule, stage) List.mem_cons_self state holds
      have others := ih stages (fun pair member => each pair (List.mem_cons_of_mem _ member))
      rw [pollOperands_cons]
      simp only [settled, Connective.goesOn, Stage.decision?, List.zipWith_cons_cons, List.find?_cons]
      -- every operand decides at once, so a chain goes on like any other group
      by_cases decisive : connective.isDecisive (decide rule stage) = true
      · simpa [decisive] using held
      · obtain ⟨pass, final⟩ := others (first.or (some (decide rule stage))) _ held
        simp only [decisive, Bool.not_false, if_true, pass]
        refine ⟨?_, final⟩
        cases (List.zipWith decide rules stages).find? connective.isDecisive with
        | some decision => rfl
        | none => cases first <;> simp [Pass.cons]

theorem poll_group_decided (visit : Visit) (id : RuleId) (connective : Connective)
    (operands : List Rule) (stage : Stage) (unsettled : stage.decision? = none)
    (Holds : State → Prop) (decide : Rule → Stage → Decision)
    (each : ∀ pair ∈ operands.zip (stage.operands operands.length).1, ∀ state, Holds state →
      (pair.1.poll visit pair.2 state).1 = .settled (decide pair.1 pair.2) ∧
        Holds (pair.1.poll visit pair.2 state).2)
    (state : State) (holds : Holds state) :
    ((group id connective operands).poll visit stage state).1 =
        .settled (connective.settle visit.precedence
          (List.zipWith decide operands (stage.operands operands.length).1)
          (stage.operands operands.length).2) ∧
      Holds ((group id connective operands).poll visit stage state).2 := by
  rw [poll_group visit _ _ _ _ _ unsettled]
  obtain ⟨pass, held⟩ := pollOperands_decided visit connective Holds decide operands
    (stage.operands operands.length).1 each (stage.operands operands.length).2 state holds
  refine ⟨?_, held⟩
  simp only [pass, Connective.settle]
  generalize List.zipWith decide operands _ = decisions
  cases decisions.find? connective.isDecisive with
  | some decision => rfl
  | none =>
    have all := (Stage.mapM_decision?_eq_some _ decisions).mpr rfl
    simp only [Pass.stage, all]

end Rule

end FieldGuard
