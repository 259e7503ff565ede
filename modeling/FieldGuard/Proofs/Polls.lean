import FieldGuard.Evaluation.Poll
import FieldGuard.Proofs.Rules

set_option autoImplicit false

namespace FieldGuard

/-- A leaf as a poll of its rule finds it. -/
structure Probe where
  visit : Visit
  id : RuleId
  question : Question
  stage : Stage
  state : State

namespace Probe

def polled (probe : Probe) : Stage × State :=
  probe.question.poll probe.id probe.visit probe.stage probe.state

def reply (probe : Probe) : Stage := probe.polled.1

def after (probe : Probe) : State := probe.polled.2

def Linked : State → List Probe → State → Prop
  | start, [], final => start = final
  | start, probe :: rest, final => probe.state = start ∧ Linked probe.after rest final

theorem Linked.append {start middle final : State} {probes others : List Probe}
    (left : Linked start probes middle) (right : Linked middle others final) :
    Linked start (probes ++ others) final := by
  induction probes generalizing start with
  | nil =>
    cases left
    exact right
  | cons probe rest ih => exact ⟨left.1, ih left.2⟩

theorem Linked.preserves {start final : State} {probes : List Probe} (Holds : State → Prop)
    (linked : Linked start probes final)
    (keeps : ∀ probe ∈ probes, Holds probe.state → Holds probe.after) (holds : Holds start) :
    (∀ probe ∈ probes, Holds probe.state) ∧ Holds final := by
  induction probes generalizing start with
  | nil =>
    cases linked
    exact ⟨by simp, holds⟩
  | cons probe rest ih =>
    obtain ⟨same, linked⟩ := linked
    have first : Holds probe.state := same ▸ holds
    have later := keeps probe List.mem_cons_self first
    obtain ⟨others, final⟩ :=
      ih linked (fun other member => keeps other (List.mem_cons_of_mem _ member)) later
    refine ⟨?_, final⟩
    intro other member
    rcases List.mem_cons.mp member with rfl | inside
    · exact first
    · exact others other inside

theorem Linked.lasts {start final : State} {probes : List Probe} (Holds : State → Prop)
    (linked : Linked start probes final)
    (keeps : ∀ probe ∈ probes, Holds probe.state → Holds probe.after) (probe : Probe)
    (member : probe ∈ probes) (holds : Holds probe.after) : Holds final := by
  induction probes generalizing start with
  | nil => simp at member
  | cons first rest ih =>
    have others : ∀ other ∈ rest, Holds other.state → Holds other.after :=
      fun other inside => keeps other (List.mem_cons_of_mem _ inside)
    rcases List.mem_cons.mp member with rfl | inside
    · exact (linked.2.preserves Holds others holds).2
    · exact ih linked.2 others inside

end Probe

theorem Stage.settled_or_waiting (stage : Stage) :
    (∃ decision, stage = .settled decision) ∨ stage.decision? = none := by
  cases stage <;> simp [Stage.decision?]

def Connective.goesOn (connective : Connective) (stage : Stage) : Bool :=
  match stage.decision? with
  | some decision => !connective.isDecisive decision
  | none => connective != .chain

namespace Rule

mutual

def probes (visit : Visit) : Rule → Stage → State → List Probe
  | _, .settled _, _ => []
  | .leaf id question, stage, state => [⟨visit, id, question, stage, state⟩]
  | .not _ operand, stage, state => operand.probes visit stage state
  | .group _ connective operands, stage, state =>
      probesOf visit connective operands (stage.operands operands.length).1 state

def probesOf (visit : Visit) (connective : Connective) :
    List Rule → List Stage → State → List Probe
  | rule :: rules, stage :: stages, state =>
      let (later, after) := rule.poll visit stage state
      rule.probes visit stage state ++
        if connective.goesOn later then probesOf visit connective rules stages after else []
  | [], _, _ | _ :: _, [], _ => []

end

mutual

/-- The leaves that have no answer yet, with their stages. -/
def awaited : Rule → Stage → List (RuleId × Question × Stage)
  | _, .settled _ => []
  | .leaf id question, stage => [(id, question, stage)]
  | .not _ operand, stage => operand.awaited stage
  | .group _ _ operands, stage => awaitedOf operands (stage.operands operands.length).1

def awaitedOf : List Rule → List Stage → List (RuleId × Question × Stage)
  | rule :: rules, stage :: stages => rule.awaited stage ++ awaitedOf rules stages
  | [], _ | _ :: _, [] => []

end

/-- Induction over a rule and its stage. A rule with an answer is not looked into. -/
@[elab_as_elim]
theorem inductStages {motive : Rule → Stage → Prop}
    (settled : ∀ rule decision, motive rule (.settled decision))
    (leaf : ∀ id question stage, stage.decision? = none → motive (.leaf id question) stage)
    (not : ∀ id operand stage, stage.decision? = none → motive operand stage →
      motive (.not id operand) stage)
    (group : ∀ id connective operands stage, stage.decision? = none →
      (∀ operand ∈ operands, ∀ stage, motive operand stage) →
      motive (.group id connective operands) stage)
    (rule : Rule) (stage : Stage) : motive rule stage := by
  induction rule generalizing stage with
  | leaf id question =>
    rcases stage.settled_or_waiting with ⟨decision, rfl⟩ | unsettled
    · exact settled _ decision
    · exact leaf id question stage unsettled
  | not id operand ih =>
    rcases stage.settled_or_waiting with ⟨decision, rfl⟩ | unsettled
    · exact settled _ decision
    · exact not id operand stage unsettled (ih stage)
  | group id connective operands ih =>
    rcases stage.settled_or_waiting with ⟨decision, rfl⟩ | unsettled
    · exact settled _ decision
    · exact group id connective operands stage unsettled ih

variable (visit : Visit)

theorem poll_settled (rule : Rule) (decision : Decision) (state : State) :
    rule.poll visit (.settled decision) state = (.settled decision, state) := by
  cases rule <;> simp [poll]

theorem poll_leaf (id : RuleId) (question : Question) (stage : Stage) (state : State)
    (unsettled : stage.decision? = none) :
    (leaf id question).poll visit stage state = question.poll id visit stage state := by
  cases stage <;> simp_all [poll, Stage.decision?]

theorem poll_not (id : RuleId) (operand : Rule) (stage : Stage) (state : State)
    (unsettled : stage.decision? = none) :
    (not id operand).poll visit stage state =
      ((operand.poll visit stage state).1.negate, (operand.poll visit stage state).2) := by
  cases stage <;> simp_all [poll, Stage.decision?]

theorem poll_group (id : RuleId) (connective : Connective) (operands : List Rule) (stage : Stage)
    (state : State) (unsettled : stage.decision? = none) :
    (group id connective operands).poll visit stage state =
      let (stages, first) := stage.operands operands.length
      let (pass, state) := pollOperands visit connective operands stages first state
      (pass.stage connective visit.precedence, state) := by
  cases stage <;> simp_all [poll, Stage.decision?]

theorem pollOperands_cons (connective : Connective) (rule : Rule) (rules : List Rule)
    (stage : Stage) (stages : List Stage) (first : Option Decision) (state : State) :
    pollOperands visit connective (rule :: rules) (stage :: stages) first state =
      let (later, after) := rule.poll visit stage state
      if connective.goesOn later then
        let (pass, final) :=
          pollOperands visit connective rules stages (first.or later.decision?) after
        (pass.cons later, final)
      else
        match later.decision? with
        | some decision => (.decided decision, after)
        | none => (.passed (later :: stages) first, after) := by
  rcases polled : rule.poll visit stage state with ⟨later, after⟩
  -- the definition asks for a decision, for its weight and for a chain; `goesOn` answers all three
  cases later <;> cases first <;> cases connective <;>
    simp [pollOperands, polled, Connective.goesOn, Stage.decision?]
  all_goals (split <;> simp_all)

theorem probes_settled (rule : Rule) (decision : Decision) (state : State) :
    rule.probes visit (.settled decision) state = [] := by
  cases rule <;> rfl

theorem probes_leaf (id : RuleId) (question : Question) (stage : Stage) (state : State)
    (unsettled : stage.decision? = none) :
    (leaf id question).probes visit stage state = [⟨visit, id, question, stage, state⟩] := by
  cases stage <;> first | rfl | cases unsettled

theorem probes_not (id : RuleId) (operand : Rule) (stage : Stage) (state : State)
    (unsettled : stage.decision? = none) :
    (not id operand).probes visit stage state = operand.probes visit stage state := by
  cases stage <;> first | rfl | cases unsettled

theorem probes_group (id : RuleId) (connective : Connective) (operands : List Rule) (stage : Stage)
    (state : State) (unsettled : stage.decision? = none) :
    (group id connective operands).probes visit stage state =
      probesOf visit connective operands (stage.operands operands.length).1 state := by
  cases stage <;> first | rfl | cases unsettled

theorem awaited_settled (rule : Rule) (decision : Decision) :
    rule.awaited (.settled decision) = [] := by
  cases rule <;> rfl

theorem awaited_leaf (id : RuleId) (question : Question) (stage : Stage)
    (unsettled : stage.decision? = none) :
    (leaf id question).awaited stage = [(id, question, stage)] := by
  cases stage <;> first | rfl | cases unsettled

theorem awaited_not (id : RuleId) (operand : Rule) (stage : Stage) :
    (not id operand).awaited stage = operand.awaited stage := by
  cases stage <;> first | rfl | exact (awaited_settled operand _).symm

theorem awaited_group (id : RuleId) (connective : Connective) (operands : List Rule)
    (stage : Stage) (unsettled : stage.decision? = none) :
    (group id connective operands).awaited stage =
      awaitedOf operands (stage.operands operands.length).1 := by
  cases stage <;> first | rfl | cases unsettled

theorem awaited_negate (operand : Rule) (stage : Stage) :
    operand.awaited stage.negate = operand.awaited stage := by
  cases stage <;> simp [Stage.negate, awaited_settled]

theorem awaitedOf_waiting (rules : List Rule)
    (each : ∀ rule ∈ rules, ∀ stage, ∀ entry ∈ rule.awaited stage, entry.2.2.decision? = none)
    (stages : List Stage) (entry : RuleId × Question × Stage)
    (member : entry ∈ awaitedOf rules stages) : entry.2.2.decision? = none := by
  induction rules generalizing stages with
  | nil => simp [awaitedOf] at member
  | cons rule rules ih =>
    cases stages with
    | nil => simp [awaitedOf] at member
    | cons stage stages =>
      rcases List.mem_append.mp member with head | rest
      · exact each rule List.mem_cons_self stage entry head
      · exact ih (fun other inside => each other (List.mem_cons_of_mem _ inside)) stages rest

theorem awaited_waiting (rule : Rule) (stage : Stage) (entry : RuleId × Question × Stage)
    (member : entry ∈ rule.awaited stage) : entry.2.2.decision? = none := by
  induction rule, stage using inductStages generalizing entry with
  | settled rule decision => simp [awaited_settled] at member
  | leaf id question stage unsettled =>
    rw [awaited_leaf _ _ _ unsettled, List.mem_singleton] at member
    subst member
    exact unsettled
  | not id operand stage unsettled ih =>
    rw [awaited_not] at member
    exact ih entry member
  | group id connective operands stage unsettled ih =>
    rw [awaited_group _ _ _ _ unsettled] at member
    exact awaitedOf_waiting operands ih _ entry member

theorem pollOperands_linked (connective : Connective) (rules : List Rule)
    (each : ∀ rule ∈ rules, ∀ stage state,
      Probe.Linked state (rule.probes visit stage state) (rule.poll visit stage state).2)
    (stages : List Stage) (first : Option Decision) (state : State) :
    Probe.Linked state (probesOf visit connective rules stages state)
      (pollOperands visit connective rules stages first state).2 := by
  induction rules generalizing stages first state with
  | nil => simp [probesOf, pollOperands, Probe.Linked]
  | cons rule rules ih =>
    cases stages with
    | nil => simp [probesOf, pollOperands, Probe.Linked]
    | cons stage stages =>
      have head := each rule List.mem_cons_self stage state
      have rest := ih (fun other member => each other (List.mem_cons_of_mem _ member))
      rw [pollOperands_cons]
      simp only [probesOf]
      -- the probes behind the first operand begin where it leaves the state
      by_cases onward : connective.goesOn (rule.poll visit stage state).1
      · simp only [onward, if_true]
        exact head.append (rest stages _ _)
      · simp only [onward, Bool.false_eq_true, if_false, List.append_nil]
        split <;> exact head

theorem poll_linked (rule : Rule) (stage : Stage) (state : State) :
    Probe.Linked state (rule.probes visit stage state) (rule.poll visit stage state).2 := by
  induction rule, stage using inductStages generalizing state with
  | settled rule decision =>
    rw [probes_settled, poll_settled]
    rfl
  | leaf id question stage unsettled =>
    rw [probes_leaf visit _ _ _ _ unsettled, poll_leaf visit _ _ _ _ unsettled]
    exact ⟨rfl, rfl⟩
  | not id operand stage unsettled ih =>
    rw [probes_not visit _ _ _ _ unsettled, poll_not visit _ _ _ _ unsettled]
    exact ih state
  | group id connective operands stage unsettled ih =>
    rw [probes_group visit _ _ _ _ _ unsettled, poll_group visit _ _ _ _ _ unsettled]
    exact pollOperands_linked visit connective operands ih _ _ state

theorem mem_probesOf (connective : Connective) (rules : List Rule) (probe : Probe)
    (each : ∀ rule ∈ rules, ∀ stage state, probe ∈ rule.probes visit stage state →
      probe.visit = visit ∧ (probe.id, probe.question, probe.stage) ∈ rule.awaited stage)
    (stages : List Stage) (state : State)
    (member : probe ∈ probesOf visit connective rules stages state) :
    probe.visit = visit ∧
      (probe.id, probe.question, probe.stage) ∈ awaitedOf rules stages := by
  induction rules generalizing stages state with
  | nil => simp [probesOf] at member
  | cons rule rules ih =>
    cases stages with
    | nil => simp [probesOf] at member
    | cons stage stages =>
      simp only [probesOf, List.mem_append] at member
      rw [awaitedOf, List.mem_append]
      rcases member with head | rest
      · obtain ⟨same, found⟩ := each rule List.mem_cons_self stage state head
        exact ⟨same, Or.inl found⟩
      · split at rest
        · obtain ⟨same, found⟩ :=
            ih (fun other inside => each other (List.mem_cons_of_mem _ inside)) _ _ rest
          exact ⟨same, Or.inr found⟩
        · cases rest

theorem mem_probes (rule : Rule) (stage : Stage) (state : State) (probe : Probe)
    (member : probe ∈ rule.probes visit stage state) :
    probe.visit = visit ∧ (probe.id, probe.question, probe.stage) ∈ rule.awaited stage := by
  induction rule, stage using inductStages generalizing state with
  | settled rule decision => simp [probes_settled] at member
  | leaf id question stage unsettled =>
    rw [probes_leaf visit _ _ _ _ unsettled, List.mem_singleton] at member
    subst member
    simp [awaited_leaf _ _ _ unsettled]
  | not id operand stage unsettled ih =>
    rw [probes_not visit _ _ _ _ unsettled] at member
    rw [awaited_not]
    exact ih state member
  | group id connective operands stage unsettled ih =>
    rw [probes_group visit _ _ _ _ _ unsettled] at member
    rw [awaited_group _ _ _ _ unsettled]
    exact mem_probesOf visit connective operands probe ih _ state member

theorem probes_waiting (rule : Rule) (stage : Stage) (state : State) (probe : Probe)
    (member : probe ∈ rule.probes visit stage state) : probe.stage.decision? = none :=
  awaited_waiting rule stage _ (mem_probes visit rule stage state probe member).2

def Traced (probes : List Probe) (earlier : List (RuleId × Question × Stage))
    (entry : RuleId × Question × Stage) : Prop :=
  entry ∈ earlier ∨ ∃ probe ∈ probes, entry = (probe.id, probe.question, probe.reply)

theorem Traced.mono {probes others : List Probe}
    {earlier wider : List (RuleId × Question × Stage)} {entry : RuleId × Question × Stage}
    (traced : Traced probes earlier entry) (asked : probes ⊆ others) (known : earlier ⊆ wider) :
    Traced others wider entry := by
  rcases traced with old | ⟨probe, member, same⟩
  · exact Or.inl (known old)
  · exact Or.inr ⟨probe, asked member, same⟩

theorem pollOperands_traced (connective : Connective) (rules : List Rule)
    (each : ∀ rule ∈ rules, ∀ stage state, ∀ entry ∈ rule.awaited (rule.poll visit stage state).1,
      Traced (rule.probes visit stage state) (rule.awaited stage) entry)
    (stages : List Stage) (first : Option Decision) (state : State)
    (later : List Stage) (reported : Option Decision)
    (passed : (pollOperands visit connective rules stages first state).1 = .passed later reported)
    (entry : RuleId × Question × Stage) (member : entry ∈ awaitedOf rules later) :
    Traced (probesOf visit connective rules stages state) (awaitedOf rules stages) entry := by
  induction rules generalizing stages first state later with
  | nil => simp [awaitedOf] at member
  | cons rule rules ih =>
    cases stages with
    | nil =>
      simp only [pollOperands, Pass.passed.injEq] at passed
      simp [← passed.1, awaitedOf] at member
    | cons stage stages =>
      have head := each rule List.mem_cons_self stage state entry
      rw [pollOperands_cons] at passed
      simp only [probesOf, awaitedOf]
      by_cases onward : connective.goesOn (rule.poll visit stage state).1
      · simp only [onward, if_true] at passed ⊢
        cases rest : (pollOperands visit connective rules stages
            (first.or (rule.poll visit stage state).1.decision?) (rule.poll visit stage state).2).1 with
        | decided decision => simp [rest, Pass.cons] at passed
        | passed stages' first' =>
          simp only [rest, Pass.cons, Pass.passed.injEq] at passed
          rw [← passed.1, awaitedOf, List.mem_append] at member
          -- an entry belongs to the operand just polled or to those behind it
          rcases member with own | other
          · exact (head own).mono (by simp) (by simp)
          · have traced := ih (fun other inside => each other (List.mem_cons_of_mem _ inside))
              stages _ _ stages' (by rw [rest, passed.2]) other
            exact traced.mono (by simp) (by simp)
      · simp only [onward, Bool.false_eq_true, if_false] at passed ⊢
        split at passed
        · cases passed
        · simp only [Pass.passed.injEq] at passed
          rw [← passed.1, awaitedOf, List.mem_append] at member
          rcases member with own | other
          · exact (head own).mono (by simp) (by simp)
          -- the operands behind a chain that waits are as they were
          · exact Or.inl (List.mem_append_right _ other)

theorem poll_traced (rule : Rule) (stage : Stage) (state : State)
    (entry : RuleId × Question × Stage)
    (member : entry ∈ rule.awaited (rule.poll visit stage state).1) :
    Traced (rule.probes visit stage state) (rule.awaited stage) entry := by
  induction rule, stage using inductStages generalizing state entry with
  | settled rule decision => simp [poll_settled, awaited_settled] at member
  | leaf id question stage unsettled =>
    rw [poll_leaf visit _ _ _ _ unsettled] at member
    rcases (question.poll id visit stage state).1.settled_or_waiting with ⟨decision, same⟩ | waiting
    · simp [same, awaited_settled] at member
    · rw [awaited_leaf _ _ _ waiting, List.mem_singleton] at member
      subst member
      rw [probes_leaf visit _ _ _ _ unsettled]
      exact Or.inr ⟨_, List.mem_singleton_self _, rfl⟩
  | not id operand stage unsettled ih =>
    rw [poll_not visit _ _ _ _ unsettled, awaited_not, awaited_negate] at member
    rw [probes_not visit _ _ _ _ unsettled, awaited_not]
    exact ih state entry member
  | group id connective operands stage unsettled ih =>
    rw [poll_group visit _ _ _ _ _ unsettled] at member
    rw [probes_group visit _ _ _ _ _ unsettled, awaited_group _ _ _ _ unsettled]
    simp only at member
    cases pass : (pollOperands visit connective operands (stage.operands operands.length).1
        (stage.operands operands.length).2 state).1 with
    | decided decision => simp [pass, Pass.stage, awaited_settled] at member
    | passed later reported =>
      simp only [pass, Pass.stage] at member
      split at member
      · simp [awaited_settled] at member
      · exact pollOperands_traced visit connective operands ih _ _ state later reported pass entry
          member

/-- What every poll of a leaf keeps, of the state and of the stage of the leaf, a poll of the rule
keeps of the state and of the stages of all leaves. -/
theorem poll_keeps (Holds : State → Prop) (Fits : RuleId → Question → Stage → Prop)
    (each : ∀ probe : Probe, probe.visit = visit → probe.stage.decision? = none →
      Holds probe.state → Fits probe.id probe.question probe.stage →
        Holds probe.after ∧ Fits probe.id probe.question probe.reply)
    (rule : Rule) (stage : Stage) (state : State) (holds : Holds state)
    (fits : ∀ entry ∈ rule.awaited stage, Fits entry.1 entry.2.1 entry.2.2) :
    Holds (rule.poll visit stage state).2 ∧
      (∀ entry ∈ rule.awaited (rule.poll visit stage state).1, Fits entry.1 entry.2.1 entry.2.2) ∧
      ∀ probe ∈ rule.probes visit stage state, Holds probe.state ∧
        probe.stage.decision? = none ∧ Fits probe.id probe.question probe.stage := by
  have asked : ∀ probe ∈ rule.probes visit stage state, probe.visit = visit ∧
      probe.stage.decision? = none ∧ Fits probe.id probe.question probe.stage := by
    intro probe member
    obtain ⟨same, found⟩ := mem_probes visit rule stage state probe member
    exact ⟨same, awaited_waiting rule stage _ found, fits _ found⟩
  have kept : ∀ probe ∈ rule.probes visit stage state, Holds probe.state →
      Holds probe.after ∧ Fits probe.id probe.question probe.reply := by
    intro probe member before
    obtain ⟨same, waiting, fit⟩ := asked probe member
    exact each probe same waiting before fit
  -- the state is carried along the probes, the stages are traced back to them
  obtain ⟨held, final⟩ := (poll_linked visit rule stage state).preserves Holds
    (fun probe member before => (kept probe member before).1) holds
  refine ⟨final, ?_, fun probe member => ⟨held probe member, (asked probe member).2⟩⟩
  intro entry member
  rcases poll_traced visit rule stage state entry member with old | ⟨probe, found, rfl⟩
  · exact fits entry old
  · exact (kept probe found (held probe found)).2

theorem mem_awaitedOf_replicate (rules : List Rule)
    (each : ∀ rule ∈ rules, ∀ entry ∈ rule.awaited .fresh,
      (entry.1, entry.2.1) ∈ rule.leaves ∧ entry.2.2 = .fresh)
    (entry : RuleId × Question × Stage)
    (member : entry ∈ awaitedOf rules (List.replicate rules.length .fresh)) :
    (entry.1, entry.2.1) ∈ leavesOf rules ∧ entry.2.2 = .fresh := by
  induction rules with
  | nil => simp [awaitedOf] at member
  | cons rule rules ih =>
    simp only [List.length_cons, List.replicate_succ, awaitedOf, List.mem_append] at member
    simp only [leavesOf, List.mem_append]
    rcases member with head | rest
    · obtain ⟨found, fresh⟩ := each rule List.mem_cons_self entry head
      exact ⟨Or.inl found, fresh⟩
    · obtain ⟨found, fresh⟩ := ih (fun other inside => each other (List.mem_cons_of_mem _ inside)) rest
      exact ⟨Or.inr found, fresh⟩

theorem mem_awaited_fresh (rule : Rule) (entry : RuleId × Question × Stage)
    (member : entry ∈ rule.awaited .fresh) :
    (entry.1, entry.2.1) ∈ rule.leaves ∧ entry.2.2 = .fresh := by
  induction rule generalizing entry with
  | leaf id question =>
    rw [awaited_leaf id question .fresh rfl, List.mem_singleton] at member
    subst member
    exact ⟨List.mem_singleton_self _, rfl⟩
  | not id operand ih =>
    rw [awaited_not] at member
    exact ih entry member
  | group id connective operands ih =>
    rw [awaited_group id connective operands .fresh rfl] at member
    exact mem_awaitedOf_replicate operands ih entry member

end Rule

end FieldGuard
