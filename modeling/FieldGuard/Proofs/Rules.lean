import FieldGuard.Rule.Basic

set_option autoImplicit false

namespace FieldGuard

def Connective.holds : Connective → List Bool → Bool
  | .and, operands | .chain, operands => operands.all id
  | .or, operands | .race, operands => operands.any id

namespace Rule

@[elab_as_elim, induction_eliminator]
theorem induct {motive : Rule → Prop}
    (leaf : ∀ id question, motive (.leaf id question))
    (not : ∀ id operand, motive operand → motive (.not id operand))
    (group : ∀ id connective operands, (∀ operand ∈ operands, motive operand) →
      motive (.group id connective operands))
    (rule : Rule) : motive rule :=
  -- the recursor treats the operands of a group as a list of its own
  @Rule.rec motive (fun operands => ∀ operand ∈ operands, motive operand) leaf not group
    (fun _ member => nomatch member)
    (fun _ _ first others _ member =>
      (List.mem_cons.mp member).elim (fun same => same ▸ first) (others _)) rule

mutual

def leaves : Rule → List (RuleId × Question)
  | .leaf id question => [(id, question)]
  | .not _ operand => operand.leaves
  | .group _ _ operands => leavesOf operands

def leavesOf : List Rule → List (RuleId × Question)
  | [] => []
  | rule :: rest => rule.leaves ++ leavesOf rest

end

mutual

def negatedLeaves : Rule → List (RuleId × Question)
  | .leaf _ _ => []
  | .not _ operand => operand.leaves
  | .group _ _ operands => negatedLeavesOf operands

def negatedLeavesOf : List Rule → List (RuleId × Question)
  | [] => []
  | rule :: rest => rule.negatedLeaves ++ negatedLeavesOf rest

end

mutual

/-- The formula of a rule, where a leaf stands for its truth. -/
def holds (truth : RuleId → Bool) : Rule → Bool
  | .leaf id _ => truth id
  | .not _ operand => !operand.holds truth
  | .group _ connective operands => connective.holds (holdsOf truth operands)

def holdsOf (truth : RuleId → Bool) : List Rule → List Bool
  | [] => []
  | rule :: rest => rule.holds truth :: holdsOf truth rest

end

mutual

def reask (questions : RuleId → Question) : Rule → Rule
  | .leaf id _ => .leaf id (questions id)
  | .not id operand => .not id (operand.reask questions)
  | .group id connective operands => .group id connective (reaskAll questions operands)

def reaskAll (questions : RuleId → Question) : List Rule → List Rule
  | [] => []
  | rule :: rest => rule.reask questions :: reaskAll questions rest

end

/-- A leaf is known by its identity. -/
def Named (questions : RuleId → Question) (rule : Rule) : Prop :=
  ∀ leaf ∈ rule.leaves, leaf.2 = questions leaf.1

theorem mem_leavesOf (rules : List Rule) (leaf : RuleId × Question) :
    leaf ∈ leavesOf rules ↔ ∃ rule ∈ rules, leaf ∈ rule.leaves := by
  induction rules with
  | nil => simp [leavesOf]
  | cons rule rest ih => simp [leavesOf, ih]

theorem mem_negatedLeavesOf (rules : List Rule) (leaf : RuleId × Question) :
    leaf ∈ negatedLeavesOf rules ↔ ∃ rule ∈ rules, leaf ∈ rule.negatedLeaves := by
  induction rules with
  | nil => simp [negatedLeavesOf]
  | cons rule rest ih => simp [negatedLeavesOf, ih]

theorem holdsOf_eq_map (truth : RuleId → Bool) (rules : List Rule) :
    holdsOf truth rules = rules.map (holds truth) := by
  induction rules with
  | nil => rfl
  | cons rule rest ih => simp [holdsOf, ih]

theorem reaskAll_eq_map (questions : RuleId → Question) (rules : List Rule) :
    reaskAll questions rules = rules.map (reask questions) := by
  induction rules with
  | nil => rfl
  | cons rule rest ih => simp [reaskAll, ih]

theorem reask_named (questions : RuleId → Question) (rule : Rule) :
    (rule.reask questions).Named questions := by
  induction rule with
  | leaf id question =>
    intro leaf member
    rw [List.mem_singleton.mp member]
  | not id operand ih => exact ih
  | group id connective operands ih =>
    intro leaf member
    rw [reask, reaskAll_eq_map, leaves, mem_leavesOf] at member
    obtain ⟨other, found, inside⟩ := member
    obtain ⟨operand, member, rfl⟩ := List.mem_map.mp found
    exact ih operand member leaf inside

theorem mem_leaves_reask (questions : RuleId → Question) (rule : Rule) (leaf : RuleId × Question)
    (member : leaf ∈ (rule.reask questions).leaves) : ∃ question, (leaf.1, question) ∈ rule.leaves := by
  induction rule with
  | leaf id question =>
    rw [reask, leaves, List.mem_singleton] at member
    exact ⟨question, by simp [member, leaves]⟩
  | not id operand ih => exact ih member
  | group id connective operands ih =>
    rw [reask, reaskAll_eq_map, leaves, mem_leavesOf] at member
    obtain ⟨other, found, inside⟩ := member
    obtain ⟨operand, member, rfl⟩ := List.mem_map.mp found
    obtain ⟨question, known⟩ := ih operand member inside
    exact ⟨question, (mem_leavesOf operands _).mpr ⟨operand, member, known⟩⟩

theorem holds_reask (questions : RuleId → Question) (truth : RuleId → Bool) (rule : Rule) :
    (rule.reask questions).holds truth = rule.holds truth := by
  induction rule with
  | leaf id question => rfl
  | not id operand ih => rw [reask, holds, holds, ih]
  | group id connective operands ih =>
    rw [reask, holds, holds, holdsOf_eq_map, holdsOf_eq_map, reaskAll_eq_map, List.map_map]
    exact congrArg connective.holds (List.map_congr_left ih)

end Rule

end FieldGuard
