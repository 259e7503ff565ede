import FieldGuard.Proofs.Meaning

set_option autoImplicit false

namespace FieldGuard

namespace Rule

/-- An alternative with these operands does not report a denial when one of them failed. -/
def Frank (reply : RuleId → Decision → Prop) (precedence : Precedence) (connective : Connective)
    (operands : List Rule) : Prop :=
  connective = .or ∨ connective = .race → ∀ decisions first,
    List.Forall₂ (Yields reply precedence) operands decisions →
      connective.Exhausted decisions first →
        (connective.conclude precedence decisions first).isDenied = true →
          ∀ decision ∈ decisions, decision.isError = false

mutual

/-- All alternatives below an odd number of negations are frank. -/
def Candid (reply : RuleId → Decision → Prop) (precedence : Precedence) : Bool → Rule → Prop
  | _, .leaf _ _ => True
  | negated, .not _ operand => operand.Candid reply precedence (!negated)
  | negated, .group _ connective operands =>
      CandidAll reply precedence negated operands ∧
        (negated = true → Frank reply precedence connective operands)

def CandidAll (reply : RuleId → Decision → Prop) (precedence : Precedence) :
    Bool → List Rule → Prop
  | _, [] => True
  | negated, rule :: rest =>
      rule.Candid reply precedence negated ∧ CandidAll reply precedence negated rest

end

variable {reply : RuleId → Decision → Prop} {precedence : Precedence}

theorem candidAll_iff (negated : Bool) (rules : List Rule) :
    CandidAll reply precedence negated rules ↔
      ∀ rule ∈ rules, rule.Candid reply precedence negated := by
  induction rules with
  | nil => simp [CandidAll]
  | cons rule rest ih => simp [CandidAll, ih]

def Firm (negated : Bool) (decision : Decision) : Prop :=
  decision.isError = false ∧ decision.isAllowed = !negated

theorem firm_negate (negated : Bool) (decision : Decision) :
    Firm negated decision.negate ↔ Firm (!negated) decision := by
  cases negated <;> cases decision <;> simp [Firm, Decision.negate, Decision.isError,
    Decision.isAllowed]

theorem Frank.firm {negated : Bool} {connective : Connective} {operands : List Rule}
    {decisions : List Decision} {first : Option Decision}
    (frank : negated = true → Frank reply precedence connective operands)
    (inner : List.Forall₂ (Yields reply precedence) operands decisions)
    (exhausted : connective.Exhausted decisions first)
    (firm : Firm negated (connective.conclude precedence decisions first)) :
    ∀ decision ∈ decisions, Firm negated decision := by
  intro decision member
  have undecided := exhausted.undecided decision member
  rcases connective.conclude_cases precedence exhausted with ⟨all, allows⟩ | ⟨any, _⟩
  · have allowed : decision.isAllowed = true := by
      rcases all with rfl | rfl <;> simpa [Connective.isDecisive] using undecided
    -- operands that all allow make a group that allows, which matters above negations only
    have positive : negated = false := by simpa [Firm, allows, Decision.isAllowed] using firm.2
    refine ⟨?_, by rw [allowed, positive]; rfl⟩
    rw [(decision.eq_allow_iff).mpr allowed]
    rfl
  · have refused : decision.isAllowed = false := by
      rcases any with rfl | rfl <;> simpa [Connective.isDecisive] using undecided
    have reports := connective.conclude_refused precedence any exhausted
    -- an alternative that refuses matters below a negation, where it is frank
    have below : negated = true := by simpa [Firm, reports] using firm.2
    have denied := (Decision.isDenied_iff _).mpr ⟨firm.1, reports⟩
    refine ⟨frank below any decisions first inner exhausted denied decision member, ?_⟩
    rw [refused, below]
    rfl

theorem Candid.holds_eq {rule : Rule} {negated : Bool} {decision : Decision}
    (truth : RuleId → Bool)
    (agrees : ∀ leaf ∈ rule.leaves, ∀ answer, reply leaf.1 answer → answer.isError = false →
      truth leaf.1 = answer.isAllowed)
    (candid : rule.Candid reply precedence negated) (yields : rule.Yields reply precedence decision)
    (firm : Firm negated decision) : rule.holds truth = !negated := by
  -- a negation turns over which answer is firm, so the induction is for both of them
  induction rule generalizing negated decision with
  | leaf id question =>
    cases yields with
    | leaf _ _ _ given =>
      rw [holds, agrees _ (List.mem_singleton_self _) decision given firm.1, firm.2]
  | not id operand ih =>
    cases yields with
    | not _ _ inner yields =>
      rw [holds, ih agrees candid yields ((firm_negate negated inner).mp firm), Bool.not_not]
  | group id connective operands ih =>
    have each (operand : Rule) (found : operand ∈ operands) (decision : Decision)
        (yields : operand.Yields reply precedence decision) (firm : Firm negated decision) :
        operand.holds truth = !negated := by
      refine ih operand found ?_ ((candidAll_iff negated operands).mp candid.1 operand found) yields firm
      exact fun leaf inside => agrees leaf ((mem_leavesOf operands leaf).mpr ⟨operand, found, inside⟩)
    rw [holds, holdsOf_eq_map]
    cases yields with
    | decided _ _ before operand behind _ earlier inner decisive =>
      rw [List.map_append, List.map_cons, each operand (by simp) decision inner firm, ← firm.2,
        connective.holds_decisive decision decisive]
    | concluded _ _ _ decisions first inner exhausted =>
      have firmly := Frank.firm candid.2 inner exhausted firm
      rw [map_operands inner (holds truth) Decision.isAllowed, ← connective.isAllowed_conclude
        precedence exhausted, firm.2]
      intro operand found decision member yields
      rw [each operand found decision yields (firmly decision member), (firmly decision member).2]

end Rule

namespace Traffic

/-- An answer that allows does not depend on leaves that failed, if no alternative below an odd
number of negations reports a denial in place of a fault. Whatever those leaves had answered
instead, in whatever request, an evaluation allows as well if it returns, and it returns at the
latest when no leaf keeps it waiting. -/
theorem allow_despite_faults (first second : Nat → Call) (caller other : Nat) (rule : Rule)
    (precedence : Precedence) (answers others : RuleId → Decision) (questions : RuleId → Question)
    (evaluates : Evaluates first caller rule precedence answers)
    (reevaluates : Evaluates second other (rule.reask questions) precedence others)
    (kept : ∀ leaf ∈ rule.leaves, (answers leaf.1).isError = false →
      others leaf.1 = answers leaf.1)
    (replaced : ∀ leaf ∈ rule.leaves, (others leaf.1).isError = false)
    (candid : rule.Candid (fun leaf answer => answer = answers leaf) precedence false)
    (traffic : Traffic) (live : Live first traffic)
    (allowed : traffic.works caller = .done (.decision .allow)) (later : Traffic)
    (relive : Live second later) :
    (∀ decision, later.works other = .done (.decision decision) → decision = .allow) ∧
      ∀ now, (∀ answer, later.works other ≠ .done answer) →
        (∀ pair ∈ asked second later (.poll other now),
          ∃ decision, pair.2.reply = .settled decision) →
        (step second later (.poll other now)).works other = .done (.decision .allow) := by
  -- the first run makes the formula true, and the second run decides as the formula says
  have truth : rule.holds (fun leaf => (others leaf).isAllowed) = true := by
    refine candid.holds_eq _ ?_ (evaluates.yields live .allow allowed) ⟨rfl, rfl⟩
    rintro leaf member answer rfl clear
    rw [kept leaf member clear]
  have clear : ∀ leaf ∈ (rule.reask questions).negatedLeaves, (others leaf.1).isError = false := by
    intro leaf below
    obtain ⟨question, member⟩ := rule.mem_leaves_reask questions leaf
      ((rule.reask questions).negatedLeaves_subset below)
    exact replaced (leaf.1, question) member
  have allows (later : Traffic) (relive : Live second later) (decision : Decision)
      (returned : later.works other = .done (.decision decision)) : decision = .allow := by
    rw [Decision.eq_allow_iff, reevaluates.isAllowed_eq relive decision returned clear,
      Rule.holds_reask, truth]
  refine ⟨allows later relive, fun now waiting settled => ?_⟩
  have decides := reevaluates.decides
  obtain ⟨decision, returned⟩ := poll_returns decides later now waiting settled
  rw [returned, allows _ (relive.poll decides now) decision returned]

theorem allow_despite_faults_alternative :
    let fault := Decision.error (.failed "delayed" "unreachable")
    let answers := fun leaf => if leaf = 2 then fault else .deny none
    let others := fun _ => Decision.deny none
    let question := Question.delayed 0 .allow
    let alternative := Rule.group 5 .or [.leaf 1 question, .leaf 2 question]
    let rule := (Rule.group 7 .or [.not 6 alternative, .not 4 (.leaf 3 question)]).reask
      fun leaf => .delayed leaf (answers leaf)
    let first := fun _ => .evaluate rule .last (.bare "Query" "report")
    let second := fun _ => .evaluate (rule.reask fun leaf => .delayed (2 * leaf) (others leaf)) .last
      (.bare "Query" "report")
    (run first (opened 1 .null []) [.poll 0 0, .poll 0 3]).works 0 = .done (.decision .allow) ∧
      (step second (run second (opened 1 .null []) [.poll 0 0]) (.poll 0 6)).works 0 =
        .done (.decision .allow) := by
  -- The alternative below the first negation reports its last refusal, which is the fault, and so
  -- it is frank. The other negation allows.
  intro fault answers others question alternative rule first second
  have allowed : (run first (opened 1 .null []) [.poll 0 0, .poll 0 3]).works 0 =
      .done (.decision .allow) := rfl
  have leaves : rule.leaves =
      [(1, .delayed 1 (.deny none)), (2, .delayed 2 fault), (3, .delayed 3 (.deny none))] := rfl
  have frank : Rule.Frank (fun leaf answer => answer = answers leaf) .last .or
      [.leaf 1 (.delayed 1 (.deny none)), .leaf 2 (.delayed 2 fault)] := by
    rintro - decisions reported (_ | ⟨own, _ | ⟨⟨_, _, _, failed⟩, _ | _⟩⟩) exhausted denied
    subst failed
    cases denied
  obtain ⟨stage, waiting⟩ : ∃ stage,
      (run second (opened 1 .null []) [.poll 0 0]).works 0 = .evaluation stage := ⟨_, rfl⟩
  -- the alternative denies at last, so that the leaf behind it is not asked
  obtain ⟨one, two, asked, one_denies, two_denies⟩ : ∃ one two,
      asked second (run second (opened 1 .null []) [.poll 0 0]) (.poll 0 6) = [(0, one), (0, two)] ∧
        one.reply = .settled (.deny none) ∧ two.reply = .settled (.deny none) :=
    ⟨_, _, rfl, rfl, rfl⟩
  refine ⟨allowed, (allow_despite_faults first second 0 0 rule .last answers others _
    (Evaluates.delayed _ _) (Evaluates.delayed _ _) ?_ ?_ ?_ _
    ⟨1, .null, [], [.poll 0 0, .poll 0 3], rfl, rfl⟩ allowed
    (run second (opened 1 .null []) [.poll 0 0]) ⟨1, .null, [], [.poll 0 0], rfl, rfl⟩).2 6 ?_ ?_⟩
  · simp [leaves, answers, others, fault, Decision.isError]
  · simp [others, Decision.isError]
  · exact ⟨⟨⟨⟨trivial, trivial, trivial⟩, fun _ => frank⟩, trivial, trivial⟩, by simp⟩
  · simp [waiting]
  · simp [asked, one_denies, two_denies]

theorem fault_grants_access :
    let question := Question.delayed 0 .allow
    let rule := Rule.not 4 (.group 3 .or [.leaf 1 question, .leaf 2 question])
    let failed := fun leaf =>
      if leaf = 1 then .deny none else Decision.error (.failed "delayed" "unreachable")
    let allowed := fun leaf => if leaf = 1 then .deny none else Decision.allow
    let evaluated := fun answers => run
      (fun _ => .evaluate (rule.reask fun leaf => .delayed 0 (answers leaf)) .first
        (.bare "Query" "report"))
      (opened 1 .null []) [.poll 0 0]
    (evaluated failed).works 0 = .done (.decision .allow) ∧
      (evaluated allowed).works 0 = .done (.decision (.deny none)) :=
  -- Below a negation, an alternative that reports a denial in place of a fault grants access that
  -- the leaf which failed might have refused.
  ⟨rfl, rfl⟩

end Traffic

end FieldGuard
