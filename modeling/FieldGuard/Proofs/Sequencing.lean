import FieldGuard.Proofs.Transparency

set_option autoImplicit false

namespace FieldGuard

namespace Connective

/-- A connective may give way to another one where no operand waits. -/
inductive GivesWay (precedence : Precedence) : Connective → Connective → Prop
  | stays (connective : Connective) : GivesWay precedence connective connective
  | toChain : GivesWay precedence .and .chain
  | toOr (first : precedence = .first) : GivesWay precedence .race .or

variable {precedence : Precedence} {connective other : Connective}

theorem GivesWay.isDecisive (gives : GivesWay precedence connective other) :
    other.isDecisive = connective.isDecisive := by
  cases gives <;> rfl

theorem GivesWay.conclude (gives : GivesWay precedence connective other)
    (decisions : List Decision) :
    other.conclude precedence decisions decisions.head? =
      connective.conclude precedence decisions decisions.head? := by
  cases gives with
  | stays => rfl
  | toChain => rfl
  | toOr first =>
    rw [first]
    rfl

end Connective

/-- The same rule with chains for some of its conjunctions and, if alternatives report their first
refusal, with alternatives for some of its races. -/
inductive Rule.Sequenced (precedence : Precedence) : Rule → Rule → Prop
  | leaf (id : RuleId) (question : Question) :
      Sequenced precedence (.leaf id question) (.leaf id question)
  | not (id other : RuleId) (operand sequenced : Rule)
      (inner : Sequenced precedence operand sequenced) :
      Sequenced precedence (.not id operand) (.not other sequenced)
  | group (id other : RuleId) (connective instead : Connective) (operands sequenced : List Rule)
      (gives : connective.GivesWay precedence instead)
      (each : List.Forall₂ (Sequenced precedence) operands sequenced) :
      Sequenced precedence (.group id connective operands) (.group other instead sequenced)

/-- An evaluation that begins on a live request ends in the poll in which it begins. -/
def Question.Prompt (question : Question) : Prop :=
  ∀ invoke, question.predicate = .custom invoke → ∀ invocation evidence now, ∃ decision,
    ((invoke invocation evidence ⟨now, false⟩).start question.name ⟨now, false⟩).2 = .settled decision

def Memo.Landed (memo : Memo) : Prop :=
  ∀ key flight, memo.find? key = some flight → ∃ decision, flight = .settled decision

section

variable {question : Question} {state : State}

theorem Question.Prompt.launch (prompt : question.Prompt) (id : RuleId) (key : Option Key)
    (visit : Visit) (running : state.request.cancelled = false) :
    ∃ decision, (question.launch id key visit state).1 = .settled decision := by
  rcases question.launch_eq id visit key state with
    ⟨allowed, _, same⟩ | ⟨invoke, invocation, evidence, custom, started, rfl, same⟩
  · exact ⟨_, congrArg Prod.fst same⟩
  · rw [same, State.moment, running]
    exact prompt invoke custom invocation evidence visit.now

theorem Question.Prompt.join (prompt : question.Prompt) (id : RuleId) (visit : Visit) (key : Key)
    (running : state.request.cancelled = false) (landed : state.request.memo.Landed) :
    (∃ decision, (question.join id visit key state).1 = .settled decision) ∧
      (question.join id visit key state).2.request.memo.Landed := by
  cases found : state.request.memo.find? key with
  | some flight =>
    obtain ⟨decision, rfl⟩ := landed key flight found
    obtain ⟨settled, memo⟩ := join_found question id visit key decision found
    exact ⟨⟨decision, settled⟩, fun other flight kept => landed other flight (memo other ▸ kept)⟩
  | none =>
    have looked : (state.record visit
      (.lookup key question.name question.sharing false)).request.cancelled = false := running
    obtain ⟨decision, begun⟩ := prompt.launch id (some key) visit looked
    simp only [Question.join, found, Option.isSome_none, Bool.false_eq_true, if_false, begun,
      sharedStage, State.withMemo_memo, launch_request, State.record_request]
    refine ⟨⟨decision, rfl⟩, fun other flight kept => ?_⟩
    rw [Memo.find?_insert _ _ _ _ found] at kept
    split at kept
    · exact ⟨decision, (Option.some.inj kept).symm⟩
    · exact landed other flight kept

theorem Question.Prompt.poll (prompt : question.Prompt) (id : RuleId) (visit : Visit)
    (landed : state.request.memo.Landed) :
    (∃ decision, (question.poll id visit .fresh state).1 = .settled decision) ∧
      (question.poll id visit .fresh state).2.request.memo.Landed := by
  unfold Question.poll
  cases running : state.request.cancelled with
  | true => exact ⟨⟨_, rfl⟩, landed⟩
  | false =>
    simp only [Bool.false_eq_true, if_false, Question.begin]
    cases Key.of? question.sharing id state.request.id visit.access with
    | some key => exact prompt.join id visit key running landed
    | none =>
      obtain ⟨decision, begun⟩ := prompt.launch id none visit running
      simp only [begun, ownStage, launch_request]
      exact ⟨⟨decision, rfl⟩, landed⟩

end

namespace Rule

theorem poll_prompt (visit : Visit) (rule : Rule) (prompt : ∀ leaf ∈ rule.leaves, leaf.2.Prompt)
    (state : State) (landed : state.request.memo.Landed) :
    (∃ decision, (rule.poll visit .fresh state).1 = .settled decision) ∧
      (rule.poll visit .fresh state).2.request.memo.Landed := by
  have each (probe : Probe) (fresh : probe.stage = .fresh) (prompt : probe.question.Prompt)
      (landed : probe.state.request.memo.Landed) :
      (∃ decision, probe.reply = .settled decision) ∧ probe.after.request.memo.Landed := by
    rw [Probe.reply, Probe.after, Probe.polled, fresh]
    exact prompt.poll probe.id probe.visit landed
  -- a leaf that waits has not been asked, since those that were have an answer
  obtain ⟨final, _, asked⟩ := rule.poll_keeps visit (fun state => state.request.memo.Landed)
    (fun _ question stage => question.Prompt ∧ (stage.decision? = none → stage = .fresh))
    (by
      intro probe _ waiting landed fits
      obtain ⟨⟨decision, settled⟩, after⟩ := each probe (fits.2 waiting) fits.1 landed
      exact ⟨after, fits.1, fun waits => by simp [settled, Stage.decision?] at waits⟩)
    .fresh state landed (by
      intro entry member
      obtain ⟨inside, fresh⟩ := rule.mem_awaited_fresh entry member
      exact ⟨prompt _ inside, fun _ => fresh⟩)
  refine ⟨rule.poll_settles visit .fresh state fun probe member => ?_, final⟩
  obtain ⟨landed, waiting, prompt, fresh⟩ := asked probe member
  exact (each probe (fresh waiting) prompt landed).1

structure Coincide (visit : Visit) (rule other : Rule) : Prop where
  decides : ∀ state : State, state.request.memo.Landed →
    (∃ decision, (rule.poll visit .fresh state).1 = .settled decision) ∧
      (rule.poll visit .fresh state).2.request.memo.Landed
  same : ∀ state : State, state.request.memo.Landed →
    other.poll visit .fresh state = rule.poll visit .fresh state

variable {visit : Visit} {operands sequenced : List Rule}

def InOrder (first : Option Decision) : Pass → Prop
  | .decided _ => True
  | .passed stages reported => ∃ decisions : List Decision,
      stages = decisions.map .settled ∧ reported = first.or decisions.head?

theorem pollOperands_inOrder (connective : Connective)
    (each : List.Forall₂ (Coincide visit) operands sequenced) (first : Option Decision)
    (state : State) (landed : state.request.memo.Landed) :
    InOrder first (pollOperands visit connective operands
      (List.replicate operands.length .fresh) first state).1 := by
  induction each generalizing first state with
  | nil => exact ⟨[], rfl, (Option.or_none).symm⟩
  | @cons rule other operands sequenced coincide each ih =>
    obtain ⟨⟨decision, settled⟩, after⟩ := coincide.decides state landed
    rw [List.length_cons, List.replicate_succ, pollOperands_cons]
    simp only [settled, Connective.goesOn, Stage.decision?]
    cases connective.isDecisive decision with
    | true => exact trivial
    | false =>
      have later := ih (first.or (some decision)) _ after
      generalize pollOperands visit connective operands _ _ _ = passed at later
      obtain ⟨pass, final⟩ := passed
      cases pass with
      | decided other => exact trivial
      | passed stages reported =>
        obtain ⟨decisions, rfl, rfl⟩ := later
        exact ⟨decision :: decisions, rfl, by cases first <;> rfl⟩

theorem pollOperands_sequenced {connective instead : Connective}
    (weighs : instead.isDecisive = connective.isDecisive)
    (each : List.Forall₂ (Coincide visit) operands sequenced) (first : Option Decision)
    (state : State) (landed : state.request.memo.Landed) :
    pollOperands visit instead sequenced (List.replicate sequenced.length .fresh) first state =
      pollOperands visit connective operands (List.replicate operands.length .fresh) first state := by
  induction each generalizing first state with
  | nil => rfl
  | @cons rule other operands sequenced coincide each ih =>
    obtain ⟨⟨decision, settled⟩, after⟩ := coincide.decides state landed
    rw [List.length_cons, List.length_cons, List.replicate_succ, List.replicate_succ,
      pollOperands_cons, pollOperands_cons, coincide.same state landed]
    -- an operand that has a decision is passed or not, whether its group would wait for it or not
    simp only [settled, Connective.goesOn, Stage.decision?, weighs,
      ih (first.or (some decision)) _ after]

theorem Sequenced.poll_eq {rule other : Rule} (sequenced : rule.Sequenced visit.precedence other)
    (prompt : ∀ leaf ∈ rule.leaves, leaf.2.Prompt) (state : State)
    (landed : state.request.memo.Landed) :
    other.poll visit .fresh state = rule.poll visit .fresh state := by
  induction rule generalizing other state with
  | leaf id question =>
    cases sequenced
    rfl
  | not id operand ih =>
    cases sequenced with
    | not _ other operand sequenced inner =>
      rw [poll_not visit _ _ _ _ rfl, poll_not visit _ _ _ _ rfl, ih inner prompt state landed]
  | group id connective operands ih =>
    cases sequenced with
    | group _ other _ instead _ sequenced gives each =>
      have inside (operand : Rule) (found : operand ∈ operands) (leaf : RuleId × Question)
          (member : leaf ∈ operand.leaves) : leaf.2.Prompt :=
        prompt leaf ((mem_leavesOf operands leaf).mpr ⟨operand, found, member⟩)
      have coincide : List.Forall₂ (Coincide visit) operands sequenced :=
        ((List.forall₂_and_left operands sequenced).mpr ⟨fun _ found => found, each⟩).imp
          fun operand _ both =>
            ⟨operand.poll_prompt visit (inside operand both.1),
              ih operand both.1 both.2 (inside operand both.1)⟩
      have same := pollOperands_sequenced gives.isDecisive coincide none state landed
      have ordered := pollOperands_inOrder connective coincide none state landed
      rw [poll_group visit _ _ _ _ _ rfl, poll_group visit _ _ _ _ _ rfl]
      simp only [Stage.operands, same]
      generalize pollOperands visit connective operands _ _ _ = passed at ordered
      obtain ⟨pass, after⟩ := passed
      cases pass with
      | decided decision => rfl
      | passed stages reported =>
        -- where nothing waits, the first operand is the first to settle
        obtain ⟨decisions, rfl, rfl⟩ := ordered
        have all := (Stage.mapM_decision?_eq_some _ decisions).mpr rfl
        simp only [Pass.stage, all, Option.none_or, gives.conclude decisions]

end Rule

inductive Call.Sequenced : Call → Call → Prop
  | same (call : Call) : Sequenced call call
  | evaluate (rule other : Rule) (precedence : Precedence) (access : FieldAccess)
      (sequenced : rule.Sequenced precedence other) :
      Sequenced (.evaluate rule precedence access) (.evaluate other precedence access)

theorem Call.Sequenced.poll_eq {call other : Call} (sequenced : call.Sequenced other)
    (prompt : ∀ leaf ∈ call.rule.leaves, leaf.2.Prompt) (now : Nat) (work : Work) (state : State)
    (fresh : ∀ stage, call.reached work = some stage → stage = .fresh)
    (landed : state.request.memo.Landed) :
    other.poll now work state = call.poll now work state := by
  cases sequenced with
  | same => rfl
  | evaluate rule other precedence access sequenced =>
    rcases work.done_or_waiting with ⟨answer, rfl⟩ | waiting
    · rw [poll_done, poll_done]
    · have unpolled := fresh work.stage (reached_evaluate work rule precedence access waiting)
      have same : other.poll ⟨now, access, precedence, none⟩ .fresh state =
          rule.poll ⟨now, access, precedence, none⟩ .fresh state :=
        Rule.Sequenced.poll_eq sequenced prompt state landed
      rw [poll_evaluate now work state other precedence access waiting,
        poll_evaluate now work state rule precedence access waiting]
      simp only [unpolled, same]

theorem State.Calm.landed {before after : State} (calm : before.Calm after)
    (landed : before.request.memo.Landed) : after.request.memo.Landed :=
  fun key flight found => landed key flight (calm.memo key ▸ found)

namespace Traffic

structure Prompt (calls : Nat → Call) (traffic : Traffic) : Prop where
  landed : traffic.state.request.memo.Landed
  fresh : ∀ caller stage, (calls caller).reached (traffic.works caller) = some stage → stage = .fresh

theorem opened_prompt (calls : Nat → Call) (id : RequestId) (context : Json) (history : Trace) :
    Prompt calls (opened id context history) :=
  ⟨fun _ _ found => (by cases found), fresh_of_opened calls id context history⟩

section

variable {calls others : Nat → Call}

theorem Prompt.update {traffic : Traffic} (idle : Prompt calls traffic) (caller : Nat) (work : Work)
    (after : State) (landed : after.request.memo.Landed)
    (fresh : ∀ stage, (calls caller).reached work = some stage → stage = .fresh) :
    Prompt calls ⟨after, Function.update traffic.works caller work⟩ := by
  refine ⟨landed, fun other stage reached => ?_⟩
  by_cases same : other = caller
  · subst same
    exact fresh stage (by simpa using reached)
  · exact idle.fresh other stage (by simpa [same] using reached)

variable (prompt : ∀ caller, ∀ leaf ∈ (calls caller).rule.leaves, leaf.2.Prompt)

include prompt

theorem Prompt.step {traffic : Traffic} (idle : Prompt calls traffic) (move : Move) :
    Prompt calls (Traffic.step calls traffic move) := by
  cases move with
  | cancel => exact ⟨idle.landed, idle.fresh⟩
  | elsewhere records => exact ⟨idle.landed, idle.fresh⟩
  | drop caller =>
    exact idle.update caller _ _ idle.landed fun stage reached => by simp [reached_dropped] at reached
  | poll caller now =>
    have polled := (calls caller).poll_polled now (traffic.works caller) traffic.state
    simp only [Traffic.step]
    generalize (calls caller).poll now (traffic.works caller) traffic.state = result at polled
    obtain ⟨work, after⟩ := result
    generalize (calls caller).probes now (traffic.works caller) traffic.state = probes at polled
    cases polled with
    | idle later after calm left =>
      refine idle.update caller work after (calm.landed idle.landed) fun stage reached => ?_
      rcases left with done | same
      · simp [done] at reached
      · exact idle.fresh caller stage (same ▸ reached)
    | asked stage later after reached leave left =>
      have entered := ((calls caller).calm_entered now traffic.state stage).landed idle.landed
      obtain rfl := idle.fresh caller stage reached
      obtain ⟨⟨decision, settled⟩, landed⟩ := (calls caller).rule.poll_prompt
        ((calls caller).visit now) (prompt caller) _ entered
      refine idle.update caller work after (leave.landed landed) fun stage reached => ?_
      -- the rule has decided, so the call waits for it no longer
      rcases left with done | ⟨_, waiting⟩
      · simp [done] at reached
      · simp [settled, Stage.decision?] at waiting

theorem run_sequenced (sequenced : ∀ caller, (calls caller).Sequenced (others caller))
    {traffic : Traffic} (idle : Prompt calls traffic) (moves : List Move) :
    run others traffic moves = run calls traffic moves := by
  induction moves generalizing traffic with
  | nil => rfl
  | cons move rest ih =>
    have alike : Traffic.step others traffic move = Traffic.step calls traffic move := by
      cases move with
      | cancel => rfl
      | elsewhere records => rfl
      | drop caller => rfl
      | poll caller now =>
        simp only [Traffic.step, (sequenced caller).poll_eq (prompt caller) now
          (traffic.works caller) traffic.state (idle.fresh caller) idle.landed]
    calc run others traffic (move :: rest)
        = run others (Traffic.step calls traffic move) rest := by rw [← alike]; rfl
      _ = run calls traffic (move :: rest) := ih (idle.step prompt move)

theorem Prompt.returns {traffic : Traffic} (idle : Prompt calls traffic) {caller : Nat}
    (decides : (calls caller).Decides) (now : Nat)
    (waiting : ∀ answer, traffic.works caller ≠ .done answer) :
    ∃ decision, (Traffic.step calls traffic (.poll caller now)).works caller =
      .done (.decision decision) := by
  have unpolled := idle.fresh caller _ ((calls caller).reached_decides _ decides waiting)
  have entered := ((calls caller).calm_entered now traffic.state .fresh).landed idle.landed
  obtain ⟨⟨decision, settled⟩, _⟩ := (calls caller).rule.poll_prompt
    ((calls caller).visit now) (prompt caller) _ entered
  have polled := ((calls caller).poll_decides now _ traffic.state decides waiting).1
  rw [unpolled, settled] at polled
  exact ⟨decision, by simp only [Traffic.step, Function.update_self, polled]; rfl⟩

end

/-- Where every predicate decides at once, evaluations of rules in sequence leave a request as those
of the rules themselves do: every call comes to the same, the predicates are called in the same order
and all else that is recorded is the same, and so are the flights of the memo, their decisions and the
counts of hits and misses. The request may be cancelled, and every evaluation returns when it is
polled. -/
theorem concurrency_is_sequence (calls others : Nat → Call)
    (prompt : ∀ caller, ∀ leaf ∈ (calls caller).rule.leaves, leaf.2.Prompt)
    (sequenced : ∀ caller, (calls caller).Sequenced (others caller)) (id : RequestId)
    (context : Json) (history : Trace) (moves : List Move) :
    run others (opened id context history) moves = run calls (opened id context history) moves ∧
      ∀ caller now, (calls caller).Decides → .poll caller now ∈ moves → .drop caller ∉ moves →
        ∃ decision, (run calls (opened id context history) moves).works caller =
          .done (.decision decision) := by
  have idle := opened_prompt calls id context history
  refine ⟨run_sequenced prompt sequenced idle moves, fun caller now decides polled undropped => ?_⟩
  obtain ⟨_, ⟨decision, rfl⟩, done⟩ := run_polled
    (fun traffic => Prompt calls traffic ∧ ∀ answer, traffic.works caller ≠ .done answer)
    (· ≠ .drop caller) (fun answer => ∃ decision, answer = .decision decision)
    (by
      rintro traffic move ⟨idle, waiting⟩ kept unpolled
      rw [step_works calls caller traffic move kept unpolled]
      exact ⟨idle.step prompt move, waiting⟩)
    (by
      rintro traffic now ⟨idle, waiting⟩
      obtain ⟨decision, done⟩ := idle.returns prompt decides now waiting
      exact ⟨_, ⟨decision, rfl⟩, done⟩)
    _ ⟨idle, by simp [opened]⟩ moves (fun _ member same => undropped (same ▸ member)) now polled
  exact ⟨decision, done⟩

theorem concurrency_is_sequence_counted :
    let count : Question := ⟨"count", .none, .custom fun invocation _ _ =>
      .settle (if invocation = 0 then .allow else .deny (some "again"))⟩
    let audit : Question := ⟨"audit", .contextual, .custom fun _ _ _ => .panic "no audit"⟩
    let draft : Question := ⟨"draft", .strict, .custom fun _ _ _ => .settle (.deny (some "draft"))⟩
    let rule := Rule.group 5 .and [.leaf 1 count, .group 4 .race [.leaf 2 audit, .leaf 3 draft]]
    let other := Rule.group 7 .chain [.leaf 1 count, .group 6 .or [.leaf 2 audit, .leaf 3 draft]]
    let calls := fun _ => Call.evaluate rule .first (.bare "Query" "report")
    let others := fun _ => Call.evaluate other .first (.bare "Query" "report")
    let moves := [.poll 0 0, .poll 1 3, .cancel, .poll 2 4]
    (∀ leaf ∈ rule.leaves, leaf.2.Prompt) ∧ rule.Sequenced .first other ∧
      run others (opened 1 .null []) moves = run calls (opened 1 .null []) moves ∧
      (run calls (opened 1 .null []) moves).works 0 =
        .done (.decision (.error (.panicked "audit" "no audit"))) := by
  -- The first leaf answers by how often it was asked, the second one panics and is cached. The last
  -- evaluation begins when the request has been cancelled.
  intro count audit draft rule other calls others moves
  have prompt : ∀ leaf ∈ rule.leaves, leaf.2.Prompt := by
    have leaves : rule.leaves = [(1, count), (2, audit), (3, draft)] := rfl
    intro leaf member
    rw [leaves] at member
    simp only [List.mem_cons, List.not_mem_nil, or_false] at member
    rcases member with rfl | rfl | rfl <;>
      (rintro _ ⟨⟩ invocation evidence now; exact ⟨_, rfl⟩)
  have race : (Rule.group 4 .race [.leaf 2 audit, .leaf 3 draft]).Sequenced .first
      (.group 6 .or [.leaf 2 audit, .leaf 3 draft]) :=
    .group 4 6 .race .or _ _ (.toOr rfl) (.cons (.leaf 2 audit) (.cons (.leaf 3 draft) .nil))
  have sequenced : rule.Sequenced .first other :=
    .group 5 7 .and .chain _ _ .toChain (.cons (.leaf 1 count) (.cons race .nil))
  exact ⟨prompt, sequenced, (concurrency_is_sequence calls others (fun _ => prompt)
    (fun _ => .evaluate rule other .first _ sequenced) 1 .null [] moves).1, rfl⟩

end Traffic

end FieldGuard
