import FieldGuard.Proofs.Returns

set_option autoImplicit false

namespace FieldGuard

namespace Decision

theorem eq_allow_iff (decision : Decision) : decision = .allow ↔ decision.isAllowed = true := by
  cases decision <;> simp [isAllowed]

theorem isDenied_iff (decision : Decision) :
    decision.isDenied = true ↔ decision.isError = false ∧ decision.isAllowed = false := by
  cases decision <;> simp [isDenied, isError, isAllowed]

theorem isError_negate (decision : Decision) : decision.negate.isError = decision.isError := by
  cases decision <;> rfl

theorem isAllowed_negate (decision : Decision) (clear : decision.isError = false) :
    decision.negate.isAllowed = !decision.isAllowed := by
  cases decision <;> first | rfl | cases clear

end Decision

namespace Connective

variable (connective : Connective) (precedence : Precedence) {decisions : List Decision}
  {first : Option Decision}

theorem conclude_cases (exhausted : connective.Exhausted decisions first) :
    ((connective = .and ∨ connective = .chain) ∧
        connective.conclude precedence decisions first = .allow) ∨
      ((connective = .or ∨ connective = .race) ∧
        (connective.conclude precedence decisions first = .deny none ∨
          connective.conclude precedence decisions first ∈ decisions)) := by
  cases connective with
  | and => exact Or.inl ⟨Or.inl rfl, rfl⟩
  | chain => exact Or.inl ⟨Or.inr rfl, rfl⟩
  | or =>
    refine Or.inr ⟨Or.inl rfl, ?_⟩
    cases decisions with
    | nil => cases precedence <;> exact Or.inl rfl
    | cons decision others =>
      right
      cases precedence with
      | first => exact List.mem_cons_self
      | last => simp [conclude, List.getLast?_eq_some_getLast (List.cons_ne_nil decision others)]
  | race =>
    refine Or.inr ⟨Or.inr rfl, ?_⟩
    cases first with
    | none => exact Or.inl rfl
    | some decision => exact Or.inr (exhausted.reported decision rfl)

theorem holds_decisive (decision : Decision) (decisive : connective.isDecisive decision = true)
    (before behind : List Bool) :
    connective.holds (before ++ decision.isAllowed :: behind) = decision.isAllowed := by
  cases connective <;> simp_all [isDecisive, holds]

theorem conclude_refused (any : connective = .or ∨ connective = .race)
    (exhausted : connective.Exhausted decisions first) :
    (connective.conclude precedence decisions first).isAllowed = false := by
  have undecided := exhausted.undecided
  rcases connective.conclude_cases precedence exhausted with ⟨all, allows⟩ | ⟨_, denies | one⟩
  · rcases any with rfl | rfl <;> simp at all
  · rw [denies]
    rfl
  · rcases any with rfl | rfl <;> exact undecided _ one

theorem isAllowed_conclude (exhausted : connective.Exhausted decisions first) :
    (connective.conclude precedence decisions first).isAllowed =
      connective.holds (decisions.map Decision.isAllowed) := by
  have undecided := exhausted.undecided
  rcases connective.conclude_cases precedence exhausted with ⟨all, allows⟩ | ⟨any, _⟩
  · rw [allows]
    rcases all with rfl | rfl <;> simp_all [isDecisive, holds, Decision.isAllowed]
  · rw [connective.conclude_refused precedence any exhausted]
    rcases any with rfl | rfl <;> simp_all [isDecisive, holds]

end Connective

namespace Rule

variable {reply : RuleId → Decision → Prop} {precedence : Precedence}

theorem negatedLeaves_subset (rule : Rule) : rule.negatedLeaves ⊆ rule.leaves := by
  induction rule with
  | leaf id question => simp [negatedLeaves]
  | not id operand ih => simp [negatedLeaves, leaves]
  | group id connective operands ih =>
    intro leaf member
    obtain ⟨operand, found, inside⟩ := (mem_negatedLeavesOf operands leaf).mp member
    exact (mem_leavesOf operands leaf).mpr ⟨operand, found, ih operand found inside⟩

theorem Yields.fits (Fits : Decision → Prop) (allows : Fits .allow) (denies : Fits (.deny none))
    (negates : ∀ decision, Fits decision → Fits decision.negate) {rule : Rule}
    {decision : Decision} (fits : ∀ leaf ∈ rule.leaves, ∀ answer, reply leaf.1 answer → Fits answer)
    (yields : rule.Yields reply precedence decision) : Fits decision := by
  induction rule generalizing decision with
  | leaf id question =>
    cases yields with
    | leaf _ _ _ given => exact fits _ (List.mem_singleton_self _) decision given
  | not id operand ih =>
    cases yields with
    | not _ _ inner yields => exact negates inner (ih fits yields)
  | group id connective operands ih =>
    have each (operand : Rule) (found : operand ∈ operands) (decision : Decision)
        (yields : operand.Yields reply precedence decision) : Fits decision :=
      ih operand found
        (fun leaf inside => fits leaf ((mem_leavesOf operands leaf).mpr ⟨operand, found, inside⟩))
        yields
    cases yields with
    | decided _ _ before operand behind _ earlier inner decisive => exact each operand (by simp) _ inner
    | concluded _ _ _ decisions first inner exhausted =>
      have all : ∀ decision ∈ decisions, Fits decision := by
        intro decision member
        obtain ⟨operand, found, yields⟩ := exists_operand inner decision member
        exact each operand found decision yields
      -- a conclusion allows, denies without a reason, or is that of an operand
      rcases Connective.conclude_cases connective precedence exhausted with
        ⟨_, allowed⟩ | ⟨_, denied | one⟩
      · rwa [allowed]
      · rwa [denied]
      · exact all _ one

theorem Yields.clear {rule : Rule} {decision : Decision}
    (clear : ∀ leaf ∈ rule.leaves, ∀ answer, reply leaf.1 answer → answer.isError = false)
    (yields : rule.Yields reply precedence decision) : decision.isError = false :=
  yields.fits (·.isError = false) rfl rfl (fun inner same => inner.isError_negate ▸ same) clear

theorem Yields.isAllowed_eq {rule : Rule} {decision : Decision} (truth : RuleId → Bool)
    (settles : ∀ leaf ∈ rule.leaves, ∀ answer, reply leaf.1 answer →
      answer.isAllowed = truth leaf.1)
    (clear : ∀ leaf ∈ rule.negatedLeaves, ∀ answer, reply leaf.1 answer → answer.isError = false)
    (yields : rule.Yields reply precedence decision) : decision.isAllowed = rule.holds truth := by
  induction rule generalizing decision with
  | leaf id question =>
    cases yields with
    | leaf _ _ _ given => exact settles _ (List.mem_singleton_self _) decision given
  | not id operand ih =>
    cases yields with
    | not _ _ inner yields =>
      -- all leaves of the operand are below the negation, so it does not fail
      rw [holds, Decision.isAllowed_negate inner (yields.clear clear)]
      rw [ih settles (fun leaf below => clear leaf (operand.negatedLeaves_subset below)) yields]
  | group id connective operands ih =>
    have each (operand : Rule) (found : operand ∈ operands) (decision : Decision)
        (yields : operand.Yields reply precedence decision) :
        decision.isAllowed = operand.holds truth := by
      refine ih operand found ?_ ?_ yields
      · exact fun leaf inside => settles leaf ((mem_leavesOf operands leaf).mpr ⟨operand, found, inside⟩)
      · exact fun leaf inside =>
          clear leaf ((mem_negatedLeavesOf operands leaf).mpr ⟨operand, found, inside⟩)
    -- one decisive operand is enough, otherwise all operands count
    rw [holds, holdsOf_eq_map]
    cases yields with
    | decided _ _ before operand behind _ earlier inner decisive =>
      rw [List.map_append, List.map_cons, ← each operand (by simp) decision inner,
        connective.holds_decisive decision decisive]
    | concluded _ _ _ decisions first inner exhausted =>
      rw [map_operands inner (holds truth) Decision.isAllowed
        fun operand found decision _ => each operand found decision]
      exact connective.isAllowed_conclude precedence exhausted

end Rule

/-- One of the calls on a request evaluates a rule, each leaf of which has one answer. A leaf is
known by its identity. -/
structure Evaluates (calls : Nat → Call) (caller : Nat) (rule : Rule) (precedence : Precedence)
    (answers : RuleId → Decision) : Prop where
  call : ∃ access, calls caller = .evaluate rule precedence access
  named : ∃ questions, ∀ other, (calls other).rule.Named questions
  settles : ∀ leaf ∈ rule.leaves, leaf.2.Settles (answers leaf.1)

namespace Evaluates

variable {calls : Nat → Call} {caller : Nat} {rule : Rule} {precedence : Precedence}
  {answers : RuleId → Decision} (evaluates : Evaluates calls caller rule precedence answers)
  {traffic : Traffic} (live : Traffic.Live calls traffic) (decision : Decision)
  (returned : traffic.works caller = .done (.decision decision))

include evaluates

theorem decides : (calls caller).Decides := by
  obtain ⟨access, call⟩ := evaluates.call
  simp [call, Call.Decides]

include live returned

theorem yields : rule.Yields (fun leaf answer => answer = answers leaf) precedence decision := by
  have decides := evaluates.decides
  obtain ⟨⟨access, call⟩, ⟨questions, named⟩, settles⟩ := evaluates
  have yields := live.yields decides questions named decision returned
  have own := named caller
  rw [call] at yields own
  apply yields.mono
  intro leaf member answer given
  exact settles leaf member answer (own leaf member ▸ given)

omit evaluates live returned in
theorem delayed (durations : RuleId → Nat) (access : FieldAccess) :
    Evaluates
      (fun _ => .evaluate (rule.reask fun leaf => .delayed (durations leaf) (answers leaf))
        precedence access) caller
      (rule.reask fun leaf => .delayed (durations leaf) (answers leaf)) precedence answers where
  call := ⟨access, rfl⟩
  named := ⟨_, fun _ => rule.reask_named _⟩
  settles := by
    intro leaf member
    rw [rule.reask_named _ leaf member]
    exact Question.delayed_settles _ _

theorem isAllowed_eq (clear : ∀ leaf ∈ rule.negatedLeaves, (answers leaf.1).isError = false) :
    decision.isAllowed = rule.holds fun leaf => (answers leaf).isAllowed := by
  apply (evaluates.yields live decision returned).isAllowed_eq
  · rintro leaf member answer rfl
    rfl
  · rintro leaf below answer rfl
    exact clear leaf below

end Evaluates

namespace Traffic

/-- Whatever else happens to a request that is never cancelled, an evaluation that returns allows if
and only if the formula of its rule is true, when each of its leaves has one answer. Among the
answers may be faults, but not below a negation. -/
theorem evaluate_allow_iff (calls : Nat → Call) (caller : Nat) (rule : Rule)
    (precedence : Precedence) (answers : RuleId → Decision)
    (evaluates : Evaluates calls caller rule precedence answers)
    (clear : ∀ leaf ∈ rule.negatedLeaves, (answers leaf.1).isError = false) (traffic : Traffic)
    (live : Live calls traffic) (decision : Decision)
    (returned : traffic.works caller = .done (.decision decision)) :
    decision = .allow ↔ rule.holds (fun leaf => (answers leaf).isAllowed) = true := by
  rw [Decision.eq_allow_iff, evaluates.isAllowed_eq live decision returned clear]

theorem evaluate_allow_iff_delayed :
    let fault := Decision.error (.failed "delayed" "unreachable")
    let answers := fun leaf => if leaf = 1 then fault else .allow
    let question := Question.delayed 0 .allow
    let rule := (Rule.group 5 .or [.leaf 1 question, .leaf 2 question, .not 4 (.leaf 3 question)]).reask
      fun leaf => .delayed (5 * leaf) (answers leaf)
    let calls := fun _ => .evaluate rule .last (.bare "Query" "report")
    (run calls (opened 1 .null []) [.poll 0 0, .poll 0 5, .poll 0 10]).works 0 =
        .done (.decision .allow) ∧
      (Decision.allow = .allow ↔ rule.holds (fun leaf => (answers leaf).isAllowed) = true) := by
  intro fault answers question rule calls
  have returned : (run calls (opened 1 .null []) [.poll 0 0, .poll 0 5, .poll 0 10]).works 0 =
      .done (.decision .allow) := rfl
  refine ⟨returned, ?_⟩
  refine evaluate_allow_iff calls 0 rule .last answers (Evaluates.delayed _ _) ?_
    (run calls (opened 1 .null []) [.poll 0 0, .poll 0 5, .poll 0 10]) ⟨1, .null, [], _, rfl, rfl⟩
    .allow returned
  intro leaf below
  have third : leaf = (3, .delayed 15 .allow) := by simpa [rule, Rule.reask, Rule.reaskAll,
    Rule.negatedLeaves, Rule.negatedLeavesOf, Rule.leaves, answers] using below
  rw [third]
  rfl

end Traffic

end FieldGuard
