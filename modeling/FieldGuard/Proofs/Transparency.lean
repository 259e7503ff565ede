import FieldGuard.Proofs.Canonical
import FieldGuard.Proofs.Returns

set_option autoImplicit false

namespace FieldGuard

namespace Rule

mutual

/-- The decision of a rule whose leaves have these answers. -/
def verdict (precedence : Precedence) (answer : RuleId → Decision) : Rule → Decision
  | .leaf id _ => answer id
  | .not _ operand => (operand.verdict precedence answer).negate
  | .group _ connective operands =>
      connective.settle precedence (verdicts precedence answer operands) none

def verdicts (precedence : Precedence) (answer : RuleId → Decision) : List Rule → List Decision
  | [] => []
  | rule :: rest => rule.verdict precedence answer :: verdicts precedence answer rest

end

mutual

def unshared : Rule → Rule
  | .leaf id question => .leaf id question.unshared
  | .not id operand => .not id operand.unshared
  | .group id connective operands => .group id connective (allUnshared operands)

def allUnshared : List Rule → List Rule
  | [] => []
  | rule :: rest => rule.unshared :: allUnshared rest

end

theorem verdicts_eq_map (precedence : Precedence) (answer : RuleId → Decision)
    (rules : List Rule) :
    verdicts precedence answer rules = rules.map (verdict precedence answer) := by
  induction rules with
  | nil => rfl
  | cons rule rest ih => simp [verdicts, ih]

theorem allUnshared_eq_map (rules : List Rule) : allUnshared rules = rules.map unshared := by
  induction rules with
  | nil => rfl
  | cons rule rest ih => simp [allUnshared, ih]

theorem verdict_unshared (precedence : Precedence) (answer : RuleId → Decision) (rule : Rule) :
    rule.unshared.verdict precedence answer = rule.verdict precedence answer := by
  induction rule with
  | leaf id question => rfl
  | not id operand ih => rw [unshared, verdict, verdict, ih]
  | group id connective operands ih =>
    rw [unshared, verdict, verdict, verdicts_eq_map, verdicts_eq_map, allUnshared_eq_map,
      List.map_map]
    exact congrArg (connective.settle precedence · none) (List.map_congr_left ih)

theorem mem_leaves_unshared (rule : Rule) (leaf : RuleId × Question)
    (member : leaf ∈ rule.unshared.leaves) :
    ∃ question, (leaf.1, question) ∈ rule.leaves ∧ leaf.2 = question.unshared := by
  induction rule with
  | leaf id question =>
    rw [unshared, leaves, List.mem_singleton] at member
    exact ⟨question, by simp [member, leaves]⟩
  | not id operand ih => exact ih member
  | group id connective operands ih =>
    rw [unshared, allUnshared_eq_map, leaves, mem_leavesOf] at member
    obtain ⟨other, found, inside⟩ := member
    obtain ⟨operand, member, rfl⟩ := List.mem_map.mp found
    obtain ⟨question, known, same⟩ := ih operand member inside
    exact ⟨question, (mem_leavesOf operands _).mpr ⟨operand, member, known⟩, same⟩

theorem zipWith_replicate_length {α β : Type} (decide : Rule → α → β) (rules : List Rule)
    (stage : α) :
    List.zipWith decide rules (List.replicate rules.length stage) = rules.map (decide · stage) := by
  induction rules with
  | nil => rfl
  | cons rule rest ih => simp [List.replicate_succ, ih]

theorem poll_verdict (visit : Visit) (answer : RuleId → Decision) (Holds : State → Prop)
    (rule : Rule)
    (each : ∀ leaf ∈ rule.leaves, ∀ state, Holds state →
      (leaf.2.poll leaf.1 visit .fresh state).1 = .settled (answer leaf.1) ∧
        Holds (leaf.2.poll leaf.1 visit .fresh state).2)
    (state : State) (holds : Holds state) :
    (rule.poll visit .fresh state).1 = .settled (rule.verdict visit.precedence answer) ∧
      Holds (rule.poll visit .fresh state).2 := by
  induction rule generalizing state with
  | leaf id question =>
    rw [poll_leaf visit _ _ _ _ rfl]
    exact each (id, question) (List.mem_singleton_self _) state holds
  | not id operand ih =>
    rw [poll_not visit _ _ _ _ rfl]
    obtain ⟨settled, held⟩ := ih each state holds
    exact ⟨by simp only [settled, Stage.negate, verdict], held⟩
  | group id connective operands ih =>
    have decided := poll_group_decided visit id connective operands .fresh rfl Holds
      (fun rule _ => rule.verdict visit.precedence answer) (fun pair member other held => by
        obtain ⟨operand, replicated⟩ := List.of_mem_zip member
        rw [(List.mem_replicate.mp replicated).2]
        exact ih pair.1 operand (fun leaf inside =>
          each leaf ((mem_leavesOf operands leaf).mpr ⟨pair.1, operand, inside⟩)) other held)
      state holds
    have started : Stage.operands operands.length .fresh =
        (List.replicate operands.length .fresh, none) := rfl
    rw [verdict, verdicts_eq_map]
    rwa [started, zipWith_replicate_length] at decided

end Rule

/-- An answer depends on nothing that a key leaves out. -/
def Sharing.Covers (sharing : Sharing) (answer : Evidence → Decision) : Prop :=
  match sharing with
  | .none => True
  | .contextual => ∀ first second, first.context = second.context → answer first = answer second
  | .strict => ∀ first second, first.context = second.context →
      first.parent.sorted.text = second.parent.sorted.text →
      first.args.sorted.text = second.args.sorted.text → answer first = answer second

/-- The predicate of a question is pure, and decides at once. -/
def Question.Replies (question : Question) (answer : Evidence → Decision) : Prop :=
  match question.predicate with
  | .constant allowed => ∀ evidence, answer evidence = if allowed then .allow else .deny none
  | .custom invoke => ∀ invocation evidence now,
      ((invoke invocation evidence ⟨now, false⟩).start question.name ⟨now, false⟩).2 =
        .settled (answer evidence)

def FieldAccess.evidence (access : FieldAccess) (context : Json) : Evidence :=
  { site := access.site, parent := access.parent, args := access.args, context }

theorem Sharing.Covers.same {sharing : Sharing} {answer : Evidence → Decision}
    (covers : sharing.Covers answer) {rule : RuleId} {request : RequestId} {key : Key}
    {first second : FieldAccess} (known : Key.of? sharing rule request first = some key)
    (also : Key.of? sharing rule request second = some key) (context : Json) :
    answer (first.evidence context) = answer (second.evidence context) := by
  cases sharing with
  | none => cases known
  | contextual => exact covers _ _ rfl
  | strict =>
    have inputs : strictInput first.parent first.args = strictInput second.parent second.args := by
      have keys := known.trans also.symm
      simpa [Key.of?] using keys
    obtain ⟨parent, args⟩ := (strictInput_inj _ _ _ _).mp inputs
    exact covers _ _ rfl parent args

structure State.Foretells (questions : RuleId → Question) (answer : RuleId → Evidence → Decision)
    (request : RequestId) (context : Json) (state : State) : Prop where
  id : state.request.id = request
  shown : state.request.context = context
  running : state.request.cancelled = false
  flights : ∀ key flight, state.request.memo.find? key = some flight → ∀ access,
    Key.of? (questions key.rule).sharing key.rule request access = some key →
      flight = .settled (answer key.rule (access.evidence context))

section

variable {questions : RuleId → Question} {answer : RuleId → Evidence → Decision}
  {request : RequestId} {context : Json}

theorem State.Foretells.keep {before after : State}
    (foretells : before.Foretells questions answer request context)
    (keeps : Question.Keeps before after)
    (memo : ∀ key flight, after.request.memo.find? key = some flight →
      before.request.memo.find? key = some flight ∨ ∃ access,
        Key.of? (questions key.rule).sharing key.rule request access = some key ∧
          (questions key.rule).sharing.Covers (answer key.rule) ∧
            flight = .settled (answer key.rule (access.evidence context))) :
    after.Foretells questions answer request context where
  id := keeps.id.trans foretells.id
  shown := keeps.context.trans foretells.shown
  running := keeps.cancelled.trans foretells.running
  flights := by
    intro key flight found access known
    rcases memo key flight found with old | ⟨other, also, covers, rfl⟩
    · exact foretells.flights key flight old access known
    -- accesses with the same key get the same answer
    · rw [covers.same also known context]

theorem State.Foretells.congr {before after : State}
    (foretells : before.Foretells questions answer request context)
    (same : after.request = before.request) :
    after.Foretells questions answer request context :=
  foretells.keep ⟨by rw [same], by rw [same], by rw [same]⟩
    fun _ _ found => Or.inl (same ▸ found)

namespace Question

variable {question : Question} {id : RuleId} {visit : Visit} {state : State}

variable (visit) in
theorem launch_replies (replies : question.Replies (answer id)) (key : Option Key)
    (foretells : state.Foretells questions answer request context) :
    (question.launch id key visit state).1 =
      .settled (answer id (visit.access.evidence context)) := by
  obtain ⟨own, rfl, running, flights⟩ := foretells
  unfold Replies at replies
  unfold launch
  split <;> simp_all [State.moment, State.evidence, FieldAccess.evidence]

variable (question id visit) in
theorem join_found (key : Key) (decision : Decision)
    (found : state.request.memo.find? key = some (.settled decision)) :
    (question.join id visit key state).1 = .settled decision ∧
      ∀ other, (question.join id visit key state).2.request.memo.find? other =
        state.request.memo.find? other := by
  simp only [join, found, Option.isSome_some, if_true, pollShared, State.withMemo_memo,
    State.record_request, Memo.find?_hit, resume_eq, Flight.poll_settled, sharedStage, true_and]
  intro other
  rw [Memo.find?_replace]
  simp only [State.recordAll_request, State.withMemo_memo, Memo.find?_hit, found, Option.map_some]
  split
  · next same => rw [same, found]
  · rfl

variable (question id visit) in
theorem join_missing (key : Key) (decision : Decision)
    (missing : state.request.memo.find? key = none)
    (launched : ∀ looked : State, looked.request = state.request →
      (question.launch id (some key) visit looked).1 = .settled decision) :
    (question.join id visit key state).1 = .settled decision ∧
      ∀ other, (question.join id visit key state).2.request.memo.find? other =
        if other = key then some (.settled decision) else state.request.memo.find? other := by
  have begun (hit : Bool) := launched
    (state.record visit (.lookup key question.name question.sharing hit)) rfl
  simp only [join, missing, Option.isSome_none, Bool.false_eq_true, if_false, begun, sharedStage,
    State.withMemo_memo, launch_request, State.record_request, true_and]
  exact fun other => Memo.find?_insert _ _ _ _ missing

theorem poll_foretold (named : question = questions id) (replies : question.Replies (answer id))
    (covers : question.sharing.Covers (answer id))
    (foretells : state.Foretells questions answer request context) :
    (question.poll id visit .fresh state).1 =
        .settled (answer id (visit.access.evidence context)) ∧
      (question.poll id visit .fresh state).2.Foretells questions answer request context := by
  have keeps := (question.poll_polled id visit .fresh state rfl).keeps
  unfold poll at keeps ⊢
  simp only [foretells.running, Bool.false_eq_true, if_false, begin] at keeps ⊢
  cases known : Key.of? question.sharing id state.request.id visit.access with
  | none =>
    simp only [known] at keeps ⊢
    rw [launch_replies visit replies none foretells]
    exact ⟨rfl, foretells.congr (question.launch_request id visit none state)⟩
  | some key =>
    simp only [known] at keeps ⊢
    obtain ⟨_, rfl⟩ := Key.of?_eq_some known
    rw [foretells.id] at known
    subst named
    cases found : state.request.memo.find? key with
    | some flight =>
      -- the answer that is found is that of any access with this key
      obtain rfl := foretells.flights key flight found visit.access known
      obtain ⟨settled, memo⟩ := join_found (questions key.rule) key.rule visit key _ found
      exact ⟨settled, foretells.keep keeps fun other flight kept => Or.inl (memo other ▸ kept)⟩
    | none =>
      have launched (looked : State) (same : looked.request = state.request) :=
        launch_replies visit replies (some key) (foretells.congr same)
      obtain ⟨settled, memo⟩ := join_missing (questions key.rule) key.rule visit key _ found launched
      refine ⟨settled, foretells.keep keeps fun other flight kept => ?_⟩
      rw [memo other] at kept
      split at kept
      · next same =>
        cases kept
        exact Or.inr ⟨visit.access, same ▸ known, same ▸ covers, by rw [same]⟩
      · exact Or.inl kept

end Question

/-- A call that only decides, and whose leaves, known by their identities, have pure predicates that
decide at once and depend on nothing that their keys leave out. -/
structure Foreseeable (questions : RuleId → Question) (answer : RuleId → Evidence → Decision)
    (call : Call) : Prop where
  decides : call.Decides
  named : call.rule.Named questions
  answers : ∀ leaf ∈ call.rule.leaves, leaf.2.Replies (answer leaf.1)
  covers : ∀ leaf ∈ call.rule.leaves, leaf.2.sharing.Covers (answer leaf.1)

def Foreseeable.work (call : Call) (answer : RuleId → Evidence → Decision) (context : Json) : Work :=
  .done (.decision (call.rule.verdict call.precedence fun id =>
    answer id (call.access.evidence context)))

theorem Foreseeable.poll {call : Call} (foreseeable : Foreseeable questions answer call) (now : Nat)
    {state : State} (foretells : state.Foretells questions answer request context) :
    (call.poll now .fresh state).1 = work call answer context ∧
      (call.poll now .fresh state).2.Foretells questions answer request context := by
  have ruled {entered : State} (held : entered.Foretells questions answer request context) :=
    call.rule.poll_verdict (call.visit now) (fun id => answer id (call.access.evidence context))
      (State.Foretells questions answer request context) (by
        intro leaf member other kept
        rw [← call.visit_access now]
        exact Question.poll_foretold (foreseeable.named leaf member)
          (foreseeable.answers leaf member) (foreseeable.covers leaf member) kept) entered held
  rw [call.visit_precedence now] at ruled
  cases call with
  | resolve guard access resolver => exact absurd rfl (foreseeable.decides guard access resolver)
  | evaluate rule precedence access =>
    rw [Call.poll_evaluate now .fresh state rule precedence access (by simp)]
    obtain ⟨settled, held⟩ := ruled foretells
    exact ⟨congrArg Work.ofStage settled, held⟩
  | check guard access =>
    rw [Call.poll_check now .fresh state guard access (by simp), Guard.pollCheck_eq]
    obtain ⟨settled, held⟩ := ruled (foretells.congr
      (guard.entered_request (guard.visit now access) .fresh state))
    exact ⟨congrArg Work.ofStage settled, held.congr (Guard.left_request _ _ _)⟩

end

def RuleTable.unshared (table : RuleTable) : RuleTable :=
  { table with
    fields := table.fields.map fun entry => (entry.1, entry.2.unshared)
    typeFallbacks := table.typeFallbacks.map fun entry => (entry.1, entry.2.unshared)
    fallback := table.fallback.map Rule.unshared
    defaultRule := table.defaultRule.unshared }

theorem RuleTable.lookup_unshared (table : RuleTable) (parentType field : String) :
    table.unshared.lookup parentType field =
      ((table.lookup parentType field).1.unshared, (table.lookup parentType field).2) :=
  table.lookup_mapRules Rule.unshared parentType field

def Call.unshared : Call → Call
  | .evaluate rule precedence access => .evaluate rule.unshared precedence access
  | .check guard access => .check { guard with table := guard.table.unshared } access
  | .resolve guard access resolver =>
      .resolve { guard with table := guard.table.unshared } access resolver

theorem Call.rule_unshared (call : Call) : call.unshared.rule = call.rule.unshared := by
  cases call with
  | evaluate rule precedence access => rfl
  | check guard access => exact congrArg Prod.fst (guard.table.lookup_unshared _ _)
  | resolve guard access resolver => exact congrArg Prod.fst (guard.table.lookup_unshared _ _)

section

variable {questions : RuleId → Question} {answer : RuleId → Evidence → Decision}

theorem Foreseeable.unshared {call : Call} (foreseeable : Foreseeable questions answer call) :
    Foreseeable (fun id => (questions id).unshared) answer call.unshared := by
  have leaves (leaf : RuleId × Question) (member : leaf ∈ call.unshared.rule.leaves) :=
    call.rule.mem_leaves_unshared leaf (call.rule_unshared ▸ member)
  refine ⟨?_, fun leaf member => ?_, fun leaf member => ?_, fun leaf member => ?_⟩
  · intro guard access resolver same
    cases call with
    | resolve guard access resolver => exact foreseeable.decides guard access resolver rfl
    | _ => cases same
  · obtain ⟨question, known, same⟩ := leaves leaf member
    rw [same, ← foreseeable.named _ known]
  · obtain ⟨question, known, same⟩ := leaves leaf member
    rw [same]
    exact foreseeable.answers _ known
  · obtain ⟨question, known, same⟩ := leaves leaf member
    rw [same]
    trivial

theorem Foreseeable.work_unshared (call : Call) (context : Json) :
    work call.unshared answer context = work call answer context := by
  have access : call.unshared.access = call.access := by cases call <;> rfl
  have precedence : call.unshared.precedence = call.precedence := by cases call <;> rfl
  rw [work, work, call.rule_unshared, access, precedence, Rule.verdict_unshared]

namespace Traffic

variable {calls : Nat → Call} {request : RequestId} {context : Json}

structure Foretold (questions : RuleId → Question) (answer : RuleId → Evidence → Decision)
    (calls : Nat → Call) (request : RequestId) (context : Json) (traffic : Traffic) : Prop where
  state : traffic.state.Foretells questions answer request context
  works : ∀ caller, traffic.works caller = .fresh ∨ traffic.works caller = .done .timedOut ∨
    traffic.works caller = Foreseeable.work (calls caller) answer context

def answered (call : Call) (answer : RuleId → Evidence → Decision) (context : Json) : Work → Work
  | .fresh => Foreseeable.work call answer context
  | work => work

theorem Foretold.poll (each : ∀ caller, Foreseeable questions answer (calls caller))
    {traffic : Traffic} (foretold : traffic.Foretold questions answer calls request context)
    (caller now : Nat) :
    ((calls caller).poll now (traffic.works caller) traffic.state).1 =
        answered (calls caller) answer context (traffic.works caller) ∧
      State.Foretells questions answer request context
        ((calls caller).poll now (traffic.works caller) traffic.state).2 := by
  rcases foretold.works caller with fresh | dropped | met
  · rw [fresh]
    exact (each caller).poll now foretold.state
  · rw [dropped, Call.poll_done]
    exact ⟨rfl, foretold.state⟩
  · rw [met, Foreseeable.work, Call.poll_done]
    exact ⟨rfl, foretold.state⟩

theorem Foretold.step (each : ∀ caller, Foreseeable questions answer (calls caller))
    {traffic : Traffic} (foretold : traffic.Foretold questions answer calls request context)
    (move : Move) (uncancelled : move ≠ .cancel) :
    (Traffic.step calls traffic move).Foretold questions answer calls request context := by
  cases move with
  | cancel => exact absurd rfl uncancelled
  | elsewhere records => exact ⟨foretold.state.congr rfl, foretold.works⟩
  | drop caller =>
    refine ⟨foretold.state, fun other => ?_⟩
    by_cases same : other = caller
    · subst same
      rcases foretold.works other with fresh | dropped | met <;>
        simp_all [Traffic.step, Traffic.dropped, Foreseeable.work]
    · simpa [Traffic.step, same] using foretold.works other
  | poll caller now =>
    obtain ⟨work, state⟩ := foretold.poll each caller now
    refine ⟨state, fun other => ?_⟩
    by_cases same : other = caller
    · subst same
      simp only [Traffic.step, Function.update_self, work]
      rcases foretold.works other with fresh | dropped | met
      · exact Or.inr (Or.inr (by rw [fresh]; rfl))
      · exact Or.inr (Or.inl (by rw [dropped]; rfl))
      · exact Or.inr (Or.inr (by rw [met]; rfl))
    · simpa [Traffic.step, same] using foretold.works other

theorem run_alike (each : ∀ caller, Foreseeable questions answer (calls caller))
    {shared unshared : Traffic} (foretold : shared.Foretold questions answer calls request context)
    (unaided : unshared.Foretold (fun id => (questions id).unshared) answer
      (fun caller => (calls caller).unshared) request context)
    (alike : unshared.works = shared.works) (moves : List Move) (uncancelled : .cancel ∉ moves) :
    (run (fun caller => (calls caller).unshared) unshared moves).works =
      (run calls shared moves).works := by
  induction moves generalizing shared unshared with
  | nil => exact alike
  | cons move rest ih =>
    rw [List.mem_cons, not_or] at uncancelled
    have own := foretold.step each move (Ne.symm uncancelled.1)
    have other := unaided.step (fun caller => (each caller).unshared) move (Ne.symm uncancelled.1)
    refine ih own other ?_ uncancelled.2
    cases move with
    | cancel => exact alike
    | elsewhere records => exact alike
    | drop caller => simp only [Traffic.step, alike]
    | poll caller now =>
      have first := (foretold.poll each caller now).1
      have second := (unaided.poll (fun caller => (each caller).unshared) caller now).1
      have same : answered (calls caller).unshared answer context (unshared.works caller) =
          answered (calls caller) answer context (shared.works caller) := by
        rw [alike]
        cases shared.works caller <;> simp only [answered, Foreseeable.work_unshared]
      simp only [Traffic.step]
      rw [second, first, same, alike]

theorem run_answered (each : ∀ caller, Foreseeable questions answer (calls caller))
    {traffic : Traffic} (foretold : traffic.Foretold questions answer calls request context)
    (caller : Nat) (undropped : traffic.works caller ≠ .done .timedOut) (moves : List Move)
    (uncancelled : .cancel ∉ moves) (kept : .drop caller ∉ moves) (now : Nat)
    (polled : .poll caller now ∈ moves) :
    (run calls traffic moves).works caller = Foreseeable.work (calls caller) answer context := by
  obtain ⟨given, rfl, done⟩ := run_polled
    (fun traffic => traffic.Foretold questions answer calls request context ∧
      traffic.works caller ≠ .done .timedOut)
    (fun move => move ≠ .cancel ∧ move ≠ .drop caller)
    (· = .decision ((calls caller).rule.verdict (calls caller).precedence fun id =>
      answer id ((calls caller).access.evidence context)))
    (by
      rintro traffic move ⟨foretold, undropped⟩ ⟨uncancelled, kept⟩ unpolled
      refine ⟨foretold.step each move uncancelled, ?_⟩
      rwa [step_works calls caller traffic move kept unpolled])
    (by
      rintro traffic now ⟨foretold, undropped⟩
      refine ⟨_, rfl, ?_⟩
      simp only [Traffic.step, Function.update_self, (foretold.poll each caller now).1]
      rcases foretold.works caller with fresh | dropped | met
      · rw [fresh]
        rfl
      · exact absurd dropped undropped
      · rw [met]
        rfl)
    traffic ⟨foretold, undropped⟩ moves (fun move member =>
      ⟨fun same => uncancelled (same ▸ member), fun same => kept (same ▸ member)⟩) now polled
  exact done

theorem opened_foretold (questions : RuleId → Question) (answer : RuleId → Evidence → Decision)
    (calls : Nat → Call) (id : RequestId) (context : Json) (history : Trace) :
    (opened id context history).Foretold questions answer calls id context :=
  ⟨⟨rfl, rfl, rfl, fun _ _ found => (by cases found)⟩, fun _ => Or.inl rfl⟩

/-- Where predicates are pure and decide at once, and depend on nothing that their keys leave out,
calls on a request that is not cancelled come to the same as they do when no leaf is cached. Every
call that is polled, and not dropped, has a decision. -/
theorem memo_transparent (questions : RuleId → Question) (answer : RuleId → Evidence → Decision)
    (each : ∀ caller, Foreseeable questions answer (calls caller)) (id : RequestId) (context : Json)
    (history : Trace) (moves : List Move) (uncancelled : .cancel ∉ moves) :
    let shared := run calls (opened id context history) moves
    let unshared := run (fun caller => (calls caller).unshared) (opened id context history) moves
    unshared.works = shared.works ∧
      ∀ caller now, .poll caller now ∈ moves → .drop caller ∉ moves →
        ∃ decision, shared.works caller = .done (.decision decision) := by
  have foretold := opened_foretold questions answer calls id context history
  have unaided := opened_foretold (fun id => (questions id).unshared) answer
    (fun caller => (calls caller).unshared) id context history
  refine ⟨run_alike each foretold unaided rfl moves uncancelled, ?_⟩
  intro caller now polled kept
  exact ⟨_, run_answered each foretold caller (by simp [opened]) moves uncancelled kept now polled⟩

theorem memo_transparent_strict :
    let draft := fun (evidence : Evidence) =>
      if evidence.parent.sorted.text = Json.null.text then Decision.allow else .deny (some "draft")
    let first : Question := ⟨"draft", .strict, .custom fun _ evidence _ => .settle (draft evidence)⟩
    let second : Question := ⟨"audit", .contextual, .custom fun _ _ _ => .panic "no audit"⟩
    let rule := Rule.group 3 .or [.leaf 1 first, .leaf 2 second]
    let calls := fun caller => Call.check ⟨⟨[], [], some rule, .deny, .constant 0 false⟩, .standard⟩
      ⟨⟨"Query", "report", []⟩, if caller = 0 then .nat 1 else .null, .null⟩
    let moves := [.poll 0 0, .poll 1 0, .poll 2 5]
    .cancel ∉ moves ∧
      (run (fun caller => (calls caller).unshared) (opened 1 .null []) moves).works =
        (run calls (opened 1 .null []) moves).works := by
  -- One leaf reads the parent and is shared by parents, the other panics and is shared by all.
  intro draft first second rule calls moves
  let answer := fun (id : RuleId) (evidence : Evidence) =>
    if id = 1 then draft evidence else .error (.panicked "audit" "no audit")
  have leaves (caller : Nat) : (calls caller).rule.leaves = [(1, first), (2, second)] := rfl
  let questions := fun (id : RuleId) => if id = 1 then first else second
  have each : ∀ caller, Foreseeable questions answer (calls caller) := by
    intro caller
    refine ⟨by simp [calls, Call.Decides], ?_, ?_, ?_⟩
    · intro leaf member
      rw [leaves] at member
      rcases List.mem_pair.mp member with rfl | rfl <;> rfl
    · intro leaf member
      rw [leaves] at member
      rcases List.mem_pair.mp member with rfl | rfl <;> exact fun _ _ _ => rfl
    · intro leaf member
      rw [leaves] at member
      rcases List.mem_pair.mp member with rfl | rfl
      · intro one other _ parent _
        simp [answer, draft, parent]
      · exact fun _ _ _ => rfl
  have uncancelled : .cancel ∉ moves := by simp [moves]
  exact ⟨uncancelled, (memo_transparent _ answer each 1 .null [] moves uncancelled).1⟩

end Traffic

end

end FieldGuard
