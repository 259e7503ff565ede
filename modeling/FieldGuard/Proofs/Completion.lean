import FieldGuard.Proofs.Meaning
import FieldGuard.Proofs.Transparency

set_option autoImplicit false

namespace FieldGuard

namespace Connective

/-- Reports none but the refusal that the positions of the operands tell. -/
def isPositional (connective : Connective) : Bool := connective == .or || connective == .chain

variable {connective : Connective} {precedence : Precedence}

theorem isPositional_cases (positional : connective.isPositional = true) :
    connective = .or ∨ connective = .chain := by
  simpa [isPositional] using positional

theorem conclude_positional (positional : connective.isPositional = true)
    (decisions : List Decision) (first reported : Option Decision) :
    connective.conclude precedence decisions first =
      connective.conclude precedence decisions reported := by
  -- neither asks which operand was the first to settle
  rcases isPositional_cases positional with rfl | rfl <;> rfl

theorem settle_exhausted (positional : connective.isPositional = true) {decisions : List Decision}
    {first : Option Decision} (exhausted : connective.Exhausted decisions first) :
    connective.settle precedence decisions none =
      connective.conclude precedence decisions first := by
  have undecided : decisions.find? connective.isDecisive = none := by
    simpa using exhausted.undecided
  rw [settle, undecided]
  exact conclude_positional positional decisions _ first

theorem settle_decisive (positional : connective.isPositional = true)
    (before behind : List Decision) (decision : Decision)
    (earlier : connective = .chain → ∀ other ∈ before, other = .allow)
    (decisive : connective.isDecisive decision = true) :
    connective.settle precedence (before ++ decision :: behind) none = decision := by
  rcases isPositional_cases positional with rfl | rfl
  -- all decisive operands of an alternative have the same decision
  · obtain ⟨found, first⟩ := Option.isSome_iff_exists.mp
      (List.find?_isSome.mpr ⟨decision, List.mem_append_cons_self, decisive⟩)
    have allowed : found = .allow := found.eq_allow_iff.mpr (List.find?_some first)
    rw [settle, first]
    exact allowed.trans (decision.eq_allow_iff.mpr decisive).symm
  · have passed : before.find? (Connective.isDecisive .chain) = none := by
      rw [List.find?_eq_none]
      intro other member
      rw [earlier rfl other member]
      decide
    rw [settle, List.find?_append, passed, Option.none_or, List.find?_cons_of_pos decisive]

end Connective

namespace Rule

mutual

/-- Whether all groups in a rule are alternatives or chains. -/
def isPositional : Rule → Bool
  | .leaf _ _ => true
  | .not _ operand => operand.isPositional
  | .group _ connective operands => connective.isPositional && arePositional operands

def arePositional : List Rule → Bool
  | [] => true
  | rule :: rest => rule.isPositional && arePositional rest

end

theorem arePositional_eq (rules : List Rule) : arePositional rules = rules.all isPositional := by
  induction rules with
  | nil => rfl
  | cons rule rest ih => simp [arePositional, ih]

theorem isPositional_reask (questions : RuleId → Question) (rule : Rule) :
    (rule.reask questions).isPositional = rule.isPositional := by
  induction rule with
  | leaf id question => rfl
  | not id operand ih => exact ih
  | group id connective operands ih =>
    have each : (operands.map (reask questions)).all isPositional = operands.all isPositional := by
      rw [List.all_map, Bool.eq_iff_iff, List.all_eq_true, List.all_eq_true]
      exact forall₂_congr fun operand found => by rw [Function.comp_apply, ih operand found]
    rw [reask, isPositional, isPositional, arePositional_eq, arePositional_eq, reaskAll_eq_map, each]

theorem verdict_reask (questions : RuleId → Question) (precedence : Precedence)
    (answer : RuleId → Decision) (rule : Rule) :
    (rule.reask questions).verdict precedence answer = rule.verdict precedence answer := by
  induction rule with
  | leaf id question => rfl
  | not id operand ih => rw [reask, verdict, verdict, ih]
  | group id connective operands ih =>
    rw [reask, verdict, verdict, verdicts_eq_map, verdicts_eq_map, reaskAll_eq_map, List.map_map]
    exact congrArg (connective.settle precedence · none) (List.map_congr_left ih)

theorem Yields.eq_verdict {reply : RuleId → Decision → Prop} {precedence : Precedence} {rule : Rule}
    {decision : Decision} (positional : rule.isPositional = true) (answer : RuleId → Decision)
    (settles : ∀ leaf ∈ rule.leaves, ∀ given, reply leaf.1 given → given = answer leaf.1)
    (yields : rule.Yields reply precedence decision) : decision = rule.verdict precedence answer := by
  induction rule generalizing decision with
  | leaf id question =>
    cases yields with
    | leaf _ _ _ given => exact settles _ (List.mem_singleton_self _) decision given
  | not id operand ih =>
    cases yields with
    | not _ _ inner yields => rw [verdict, ih positional settles yields]
  | group id connective operands ih =>
    rw [isPositional, arePositional_eq, Bool.and_eq_true, List.all_eq_true] at positional
    obtain ⟨own, inside⟩ := positional
    have each (operand : Rule) (found : operand ∈ operands) (decision : Decision)
        (yields : operand.Yields reply precedence decision) :
        decision = operand.verdict precedence answer :=
      ih operand found (inside operand found)
        (fun leaf member => settles leaf ((mem_leavesOf operands leaf).mpr ⟨operand, found, member⟩))
        yields
    rw [verdict, verdicts_eq_map]
    cases yields with
    | decided _ _ before operand behind _ earlier inner decisive =>
      have decided := each operand (by simp) decision inner
      rw [List.map_append, List.map_cons, ← decided]
      refine (Connective.settle_decisive own _ _ decision ?_ decisive).symm
      intro chain other member
      obtain ⟨passed, found, rfl⟩ := List.mem_map.mp member
      exact (each passed (by simp [found]) .allow (earlier chain passed found)).symm
    | concluded _ _ _ decisions first inner exhausted =>
      have verdicts : operands.map (verdict precedence answer) = decisions := by
        simpa using map_operands inner (verdict precedence answer) (fun decision => decision)
          fun operand found decision _ => each operand found decision
      rw [verdicts]
      exact (Connective.settle_exhausted own exhausted).symm

end Rule

namespace Traffic

/-- Two evaluations of a rule of leaves, `or`, `chain` and negations, on requests that are never
cancelled, return the same decision if the leaves give the same answers: the verdict on these. How
long the leaves take and in which order they settle, how they are cached, and what else happens to
the requests does not matter. -/
theorem completion_order_unseen (calls others : Nat → Call) (caller other : Nat) (rule : Rule)
    (positional : rule.isPositional = true) (questions : RuleId → Question)
    (precedence : Precedence) (answers : RuleId → Decision)
    (evaluates : Evaluates calls caller rule precedence answers)
    (reevaluates : Evaluates others other (rule.reask questions) precedence answers)
    (traffic later : Traffic) (live : Live calls traffic) (relive : Live others later)
    (decision repeated : Decision)
    (returned : traffic.works caller = .done (.decision decision))
    (again : later.works other = .done (.decision repeated)) :
    repeated = decision ∧ decision = rule.verdict precedence answers := by
  have first := (evaluates.yields live decision returned).eq_verdict positional answers
    fun leaf _ given same => same
  have second := (reevaluates.yields relive repeated again).eq_verdict
    ((rule.isPositional_reask questions).trans positional) answers fun leaf _ given same => same
  rw [rule.verdict_reask] at second
  exact ⟨second.trans first.symm, first⟩

theorem completion_order_unseen_reversed :
    let fault := Decision.error (.failed "delayed" "unreachable")
    let answers := fun leaf =>
      if leaf = 1 then .allow else if leaf = 2 then fault else .deny (some "general")
    let question := Question.delayed 0 .allow
    let rule := (Rule.group 6 .or [.group 4 .chain [.leaf 1 question, .leaf 2 question],
      .not 5 (.leaf 1 question), .leaf 3 question]).reask fun leaf => .delayed (leaf - 1) (answers leaf)
    let questions := fun leaf => (Question.delayed (3 - leaf) (answers leaf)).unshared
    let calls := fun _ => Call.evaluate rule .first (.bare "Query" "report")
    let others := fun _ => Call.evaluate (rule.reask questions) .first (.bare "Query" "draft")
    let traffic := run calls (opened 1 .null []) [.poll 0 0, .poll 0 1, .poll 0 2]
    let later := run others (opened 2 .null []) [.poll 4 0, .poll 4 2, .poll 4 3]
    rule.isPositional = true ∧ traffic.works 0 = .done (.decision fault) ∧
      later.works 4 = .done (.decision fault) ∧ fault = rule.verdict .first answers := by
  -- The failure of the chain is reported in both runs: it settles before the denial in one and
  -- after it in the other, where no leaf is cached.
  intro fault answers question rule questions calls others traffic later
  have returned : traffic.works 0 = .done (.decision fault) := rfl
  have again : later.works 4 = .done (.decision fault) := rfl
  have reevaluates : Evaluates others 4 (rule.reask questions) .first answers := by
    have settles (leaf : RuleId × Question) (member : leaf ∈ (rule.reask questions).leaves) :
        leaf.2.Settles (answers leaf.1) := by
      rw [rule.reask_named questions leaf member]
      exact Question.delayed_settles _ _
    exact ⟨⟨.bare "Query" "draft", rfl⟩, ⟨questions, fun _ => rule.reask_named questions⟩, settles⟩
  have positional : rule.isPositional = true := rfl
  have live : Live calls traffic :=
    ⟨1, .null, [], [.poll 0 0, .poll 0 1, .poll 0 2], rfl, by decide +kernel⟩
  have relive : Live others later :=
    ⟨2, .null, [], [.poll 4 0, .poll 4 2, .poll 4 3], rfl, by decide +kernel⟩
  exact ⟨positional, returned, again, (completion_order_unseen calls others 0 4 rule positional
    questions .first answers (Evaluates.delayed _ _) reevaluates traffic later live relive fault fault
    returned again).2⟩

end Traffic

end FieldGuard
