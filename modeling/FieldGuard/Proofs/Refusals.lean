import FieldGuard.Proofs.Series

set_option autoImplicit false

namespace FieldGuard

/-- A change in which the request has no part, and of which it has no record. -/
structure State.Untouched (before after : State) : Prop where
  request : after.request = before.request
  records : (after.trace.filter fun record => record.request == after.request.id) =
    before.trace.filter fun record => record.request == before.request.id

namespace State

theorem untouched_refl (state : State) : state.Untouched state := ⟨rfl, rfl⟩

theorem Untouched.trans {before middle after : State} (first : before.Untouched middle)
    (second : middle.Untouched after) : before.Untouched after :=
  ⟨second.request.trans first.request, second.records.trans first.records⟩

theorem untouched_joinedBy (records : Trace) (state : State) :
    state.Untouched (Traffic.joinedBy records state) := by
  refine ⟨rfl, ?_⟩
  simp only [Traffic.joinedBy, List.filter_append, List.append_right_eq_self, List.filter_filter,
    List.filter_eq_nil_iff]
  intro record _
  by_cases own : record.request = state.request.id <;> simp [own]

end State

theorem Decision.allow_or_refused {decision : Decision} (other : decision ≠ .error .cancelled) :
    decision = .allow ∨ decision.fate = .refused := by
  cases decision with
  | allow => exact Or.inl rfl
  | deny reason => exact Or.inr rfl
  | error fault =>
    cases fault with
    | cancelled => exact absurd rfl other
    | _ => exact Or.inr rfl

namespace Guard

variable (guard : Guard)

theorem outcome_refused (resolver : Resolver) {decision : Decision}
    (refused : decision.fate = .refused) :
    ∃ denial, guard.outcome resolver decision = guard.refusal denial := by
  cases decision with
  | allow => cases refused
  | deny reason => exact ⟨_, rfl⟩
  | error fault =>
    cases fault with
    | cancelled => cases refused
    | _ => exact ⟨_, rfl⟩

theorem outcome_redacted (redacts : guard.options.onDeny = .redact) (resolver : Resolver)
    {decision : Decision} (other : decision ≠ .error .cancelled) :
    guard.outcome resolver decision ≠ .cancelled ∧
      ∀ denial, guard.outcome resolver decision ≠ .denied denial := by
  rcases decision.allow_or_refused other with rfl | refused
  · unfold outcome
    cases resolver.result <;> simp
  · obtain ⟨denial, outcome⟩ := guard.outcome_refused resolver refused
    rw [outcome, refusal, redacts]
    simp

end Guard

theorem Rule.Yields.uncancelled {rule : Rule} {reply : RuleId → Decision → Prop}
    {precedence : Precedence} {decision : Decision}
    (yields : rule.Yields reply precedence decision)
    (honest : ∀ leaf ∈ rule.leaves, ¬ reply leaf.1 (.error .cancelled)) :
    decision ≠ .error .cancelled := by
  -- neither an operator nor a negation makes this fault
  refine yields.fits (· ≠ .error .cancelled) (by simp) (by simp) ?_ ?_
  · intro inner other same
    cases inner <;> simp_all [Decision.negate]
  · rintro leaf member answer given rfl
    exact honest leaf member given

namespace Call

variable (guard : Guard) (access : FieldAccess) (resolver : Resolver) (now : Nat) (work : Work)
  (state : State)

theorem poll_redacted (redacts : guard.options.onDeny = .redact) :
    ((resolve guard access resolver).poll now work state).2.request.cancelled =
      state.request.cancelled := by
  rcases resolve_cases now work state guard access resolver with
    ⟨_, same, _⟩ | ⟨stage, reached, admitted⟩
  · rw [same]
  · have still := (guard.selected access).1.poll_cancelled_eq
      (Guard.authorizing (guard.visit now access)) stage
      (guard.entered (Guard.authorizing (guard.visit now access)) stage state)
    obtain ⟨later, after, polled, poll⟩ :=
      poll_admitted now work state guard access resolver stage reached admitted
    rw [polled, Guard.entered_request] at still
    rcases poll with ⟨decision, rfl, concluded⟩ | ⟨_, authorizing⟩
    · rw [concluded, Prod.map_snd, id, Guard.conclude_cancelled, Guard.left_request, still]
      simp [Guard.cancels, redacts]
    · rw [authorizing]
      exact still

theorem poll_refused (cancelled : state.request.cancelled = true)
    (refused : work = .fresh ∨ work = .done (.result .cancelled)) :
    (resolve guard access resolver).poll now work state = (.done (.result .cancelled), state) := by
  rcases refused with rfl | rfl
  · rw [poll_resolve now .fresh state guard access resolver (by simp)]
    simp only [Work.resolution?]
    rw [guard.pollResolve_refused resolver _ .fresh state cancelled]
    rfl
  · exact poll_done _ _ _ _

end Call

namespace Traffic

variable {guard : Guard} {fields : Nat → FieldAccess × Resolver} {traffic : Traffic}

variable (guard fields) in
theorem step_refused {caller : Nat} (cancelled : traffic.state.request.cancelled = true)
    (refused : traffic.works caller = .fresh ∨ traffic.works caller = .done (.result .cancelled))
    (move : Move) (own : move.isOf caller = true) :
    traffic.state.Untouched (step (guard.serves fields) traffic move).state ∧
      ((step (guard.serves fields) traffic move).works caller = .fresh ∨
        (step (guard.serves fields) traffic move).works caller = .done (.result .cancelled)) := by
  cases move with
  | drop other => cases own
  | cancel => cases own
  | elsewhere records => exact ⟨State.untouched_joinedBy records traffic.state, refused⟩
  | poll other now =>
    obtain rfl : other = caller := by simpa [Move.isOf] using own
    have polled := Call.poll_refused guard (fields other).1 (fields other).2 now _ _ cancelled refused
    simp only [step, Guard.serves, polled]
    exact ⟨State.untouched_refl _, Or.inr (Function.update_self _ _ _)⟩

theorem run_refused {caller : Nat} (cancelled : traffic.state.request.cancelled = true)
    (refused : traffic.works caller = .fresh ∨ traffic.works caller = .done (.result .cancelled))
    (moves : List Move) (own : ∀ move ∈ moves, move.isOf caller = true) :
    traffic.state.Untouched (run (guard.serves fields) traffic moves).state ∧
      ((run (guard.serves fields) traffic moves).works caller = .fresh ∨
        (run (guard.serves fields) traffic moves).works caller = .done (.result .cancelled)) := by
  induction moves generalizing traffic with
  | nil => exact ⟨State.untouched_refl _, refused⟩
  | cons move rest ih =>
    obtain ⟨untouched, still⟩ :=
      step_refused guard fields cancelled refused move (own move List.mem_cons_self)
    obtain ⟨later, final⟩ := ih (untouched.request ▸ cancelled) still
      fun other member => own other (List.mem_cons_of_mem _ member)
    exact ⟨untouched.trans later, final⟩

theorem Series.refused {turns : List Turn} (series : Series (guard.serves fields) traffic turns)
    (cancelled : traffic.state.request.cancelled = true) :
    traffic.state.Untouched (after (guard.serves fields) traffic turns).state ∧
      ∀ turn ∈ turns, (after (guard.serves fields) traffic turns).works turn.caller =
        .done (.result .cancelled) := by
  induction turns generalizing traffic with
  | nil => exact ⟨State.untouched_refl _, by simp⟩
  | cons turn rest ih =>
    cases series with
    | cons _ _ _ fresh own done later =>
      obtain ⟨untouched, refused⟩ := run_refused cancelled (Or.inl fresh) turn.moves own
      obtain ⟨answer, done⟩ := done
      rw [done] at refused
      obtain rfl : answer = .result .cancelled := by simpa using refused
      obtain ⟨still, others⟩ := ih later (untouched.request ▸ cancelled)
      rw [after_cons]
      refine ⟨untouched.trans still, fun other member => ?_⟩
      rcases List.mem_cons.mp member with rfl | inside
      · exact run_done _ _ _ _ _ done
      · exact others other inside

theorem Series.own {calls : Nat → Call} {turns : List Turn} (series : Series calls traffic turns)
    (move : Move) (member : move ∈ turns.flatMap Turn.moves) :
    ∃ caller, move.isOf caller = true := by
  induction series with
  | nil traffic => cases member
  | cons traffic turn rest fresh own done later ih =>
    rw [List.flatMap_cons, List.mem_append] at member
    rcases member with here | there
    · exact ⟨turn.caller, own move here⟩
    · exact ih there

theorem run_redacted (redacts : guard.options.onDeny = .redact) (moves : List Move)
    (own : ∀ move ∈ moves, ∃ caller, move.isOf caller = true) :
    (run (guard.serves fields) traffic moves).state.request.cancelled =
      traffic.state.request.cancelled := by
  induction moves generalizing traffic with
  | nil => rfl
  | cons move rest ih =>
    refine (ih fun other member => own other (List.mem_cons_of_mem _ member)).trans ?_
    obtain ⟨caller, own⟩ := own move List.mem_cons_self
    cases move with
    | drop other => cases own
    | cancel => cases own
    | elsewhere records => rfl
    | poll other now => exact Call.poll_redacted guard _ _ now _ _ redacts

section

variable {questions : RuleId → Question} {request : RequestId}
  (named : ∀ caller, (guard.serves fields caller).rule.Named questions)
  (honest : ∀ caller, ∀ leaf ∈ (guard.serves fields caller).rule.leaves,
    ¬ leaf.2.MayEnd (.error .cancelled))

/-- Fields that are resolved, up to one that is denied. Those after it are cancelled, and leave the
request untouched. -/
def Aborts (guard : Guard) (fields : Nat → FieldAccess × Resolver) (traffic : Traffic)
    (turns : List Turn) : Prop :=
  ∃ passed rest, turns = passed ++ rest ∧
    (∀ turn ∈ passed, (after (guard.serves fields) traffic turns).works turn.caller =
      .done (.result (guard.outcome (fields turn.caller).2 .allow))) ∧
    (rest = [] ∨ ∃ turn later denial, rest = turn :: later ∧
      (after (guard.serves fields) traffic turns).works turn.caller =
        .done (.result (.denied denial)) ∧
      (∀ other ∈ later, (after (guard.serves fields) traffic turns).works other.caller =
        .done (.result .cancelled)) ∧
      (after (guard.serves fields) traffic (passed ++ [turn])).state.Untouched
        (after (guard.serves fields) traffic turns).state)

include named honest

theorem turn_uncancelled {caller : Nat} {decision : Decision}
    (yields : (guard.selected (fields caller).1).1.Yields
      (fun leaf answer => (questions leaf).MayEnd answer) guard.options.precedence decision) :
    decision ≠ .error .cancelled :=
  yields.uncancelled fun leaf member given => honest caller leaf member (named caller leaf member ▸ given)

theorem Series.aborts (aborts : guard.options.onDeny = .abort) {turns : List Turn}
    (series : Series (guard.serves fields) traffic turns)
    (led : Led guard fields questions request traffic)
    (live : traffic.state.request.cancelled = false) : Aborts guard fields traffic turns := by
  induction turns generalizing traffic with
  | nil => exact ⟨[], [], rfl, by simp, Or.inl rfl⟩
  | cons turn rest ih =>
    cases series with
    | cons _ _ _ fresh own done later =>
      obtain ⟨decision, yields, result, concludes⟩ := turn_concludes named led live fresh own done
      have cancelled := concludes.cancelled
      have other := turn_uncancelled named honest yields
      unfold Aborts
      rw [after_cons]
      rcases decision.allow_or_refused other with rfl | refused
      · have still : (run (guard.serves fields) traffic turn.moves).state.request.cancelled = false := by
          rw [cancelled, live]
          simp [Guard.cancels, Decision.fate]
        have led := (led.run (flights_invariant questions named request) turn.moves).1
        obtain ⟨passed, behind, rfl, resolved, ended⟩ := ih later led still
        refine ⟨turn :: passed, behind, rfl, fun other member => ?_, ?_⟩
        · rcases List.mem_cons.mp member with rfl | inside
          · exact run_done _ _ _ _ _ result
          · exact resolved other inside
        · simp only [List.cons_append, after_cons]
          exact ended
      -- from the refused field on the request is cancelled
      · obtain ⟨denial, outcome⟩ := guard.outcome_refused (fields turn.caller).2 refused
        have ended : (run (guard.serves fields) traffic turn.moves).state.request.cancelled = true := by
          rw [cancelled, live]
          simp [Guard.cancels, aborts, refused]
        obtain ⟨untouched, others⟩ := later.refused ended
        rw [outcome, Guard.refusal, aborts] at result
        refine ⟨[], turn :: rest, rfl, by simp,
          Or.inr ⟨turn, rest, denial, rfl, run_done _ _ _ _ _ result, others, ?_⟩⟩
        rw [List.nil_append, after_cons]
        exact untouched

omit honest in
theorem opened_led (id : RequestId) (context : Json) (history : Trace) :
    Led guard fields questions id (opened id context history) :=
  (flights_invariant questions named id).opened id context history
    ⟨rfl, fun _ _ found => (by cases found)⟩

/-- A field that is resolved on a live request has a decision to which its rule leads, and all that
follows from it. -/
structure Settles (guard : Guard) (fields : Nat → FieldAccess × Resolver)
    (questions : RuleId → Question) (request : RequestId) (turn : Turn) (decision : Decision)
    (before after final : Traffic) : Prop where
  yields : (guard.selected (fields turn.caller).1).1.Yields
    (fun leaf answer => (questions leaf).MayEnd answer) guard.options.precedence decision
  uncancelled : decision ≠ .error .cancelled
  result : final.works turn.caller = .done (.result (guard.outcome (fields turn.caller).2 decision))
  concludes : guard.Concludes (fields turn.caller).1 decision before.state after.state
  logged : after.state.trace.lines request =
    before.state.trace.lines request ++ guard.lines (fields turn.caller).1 request decision

theorem Series.settles {earlier behind : List Turn} {turn : Turn}
    (series : Series (guard.serves fields) traffic (earlier ++ turn :: behind))
    (led : Led guard fields questions request traffic)
    (live : (after (guard.serves fields) traffic earlier).state.request.cancelled = false) :
    ∃ decision, Settles guard fields questions request turn decision
      (after (guard.serves fields) traffic earlier)
      (after (guard.serves fields) traffic (earlier ++ [turn]))
      (after (guard.serves fields) traffic (earlier ++ turn :: behind)) := by
  cases series.append with
  | cons _ _ _ fresh own done later =>
    have led := (led.run (flights_invariant questions named request) (earlier.flatMap Turn.moves)).1
    obtain ⟨decision, yields, result, concludes⟩ := turn_concludes named led live fresh own done
    have known := led.state.1
    have still := (led.run (flights_invariant questions named request) turn.moves).1.state.1
    have logged := concludes.lines (still.trans known.symm)
    rw [known] at logged
    refine ⟨decision, yields, turn_uncancelled named honest yields, ?_, ?_, ?_⟩
    · rw [after_append, after_cons]
      exact run_done _ _ _ _ _ result
    · rw [after_append, after_cons]
      exact concludes
    · rw [after_append, after_cons]
      exact logged

end

/-- Fields that are resolved one after another, on a request that nobody else cancels and by rules
whose leaves do not fail as cancelled of their own accord. Under `abort` the first refusal ends the
request, under `redact` none does. As long as the request is live, the decision of a field settles
its result, what is remarked of it, and whether its resolver runs. -/
theorem request_shape {guard : Guard} {fields : Nat → FieldAccess × Resolver}
    (questions : RuleId → Question)
    (named : ∀ caller, (guard.serves fields caller).rule.Named questions)
    (honest : ∀ caller, ∀ leaf ∈ (guard.serves fields caller).rule.leaves,
      ¬ leaf.2.MayEnd (.error .cancelled))
    (id : RequestId) (context : Json) (history : Trace) (turns : List Turn)
    (series : Series (guard.serves fields) (opened id context history) turns) :
    let passed := after (guard.serves fields) (opened id context history)
    (guard.options.onDeny = .abort → Aborts guard fields (opened id context history) turns) ∧
      (guard.options.onDeny = .redact →
        (∀ moves, moves <+: turns.flatMap Turn.moves →
          (run (guard.serves fields) (opened id context history) moves).state.request.cancelled =
            false) ∧
        ∀ turn ∈ turns, ∃ result, (passed turns).works turn.caller = .done (.result result) ∧
          result ≠ .cancelled ∧ ∀ denial, result ≠ .denied denial) ∧
      ∀ earlier turn behind, turns = earlier ++ turn :: behind →
        (passed earlier).state.request.cancelled = false →
        ∃ decision, Settles guard fields questions id turn decision (passed earlier)
          (passed (earlier ++ [turn])) (passed turns) := by
  intro passed
  have led := opened_led named id context history
  refine ⟨fun aborts => series.aborts named honest aborts led rfl, fun redacts => ?_, ?_⟩
  · have live (moves : List Move) (begins : moves <+: turns.flatMap Turn.moves) :
        (run (guard.serves fields) (opened id context history) moves).state.request.cancelled = false :=
      run_redacted redacts moves fun move member => series.own move (begins.subset member)
    refine ⟨live, fun turn member => ?_⟩
    obtain ⟨earlier, behind, rfl⟩ := List.append_of_mem member
    obtain ⟨decision, settles⟩ := series.settles named honest led
      (live _ ⟨(turn :: behind).flatMap Turn.moves, List.flatMap_append.symm⟩)
    exact ⟨_, settles.result, guard.outcome_redacted redacts _ settles.uncancelled⟩
  · rintro earlier turn behind rfl live
    exact series.settles named honest led live

theorem request_shape_denied :
    let published : Question := ⟨"published", .none, .custom fun _ evidence _ =>
      .wait (.sleep 5) fun _ =>
        if evidence.parent matches .null then .settle (.deny (some "draft")) else .settle .allow⟩
    let guard : Guard :=
      { table := ⟨[], [], some (.leaf 1 published), .deny, .constant 0 false⟩
        options := ⟨.abort, .last, "not authorized", "internal error"⟩ }
    let fields : Nat → FieldAccess × Resolver := fun caller =>
      (⟨⟨"Post", "title", ["title"]⟩, if caller = 2 then .null else .nat 1, .null⟩,
        ⟨3, if caller = 1 then .error "no row" else .ok (.string "text")⟩)
    let first : Turn := ⟨0, [.poll 0 0, .poll 0 5, .poll 0 8]⟩
    let second : Turn := ⟨1, [.poll 1 8, .elsewhere [], .poll 1 13, .poll 1 16]⟩
    let third : Turn := ⟨2, [.poll 2 16, .poll 2 21]⟩
    let last : Turn := ⟨3, [.poll 3 21]⟩
    let passed := after (guard.serves fields) (opened 1 .null [])
    let turns := [first, second, third, last]
    (∀ caller, (guard.serves fields caller).rule.Named fun _ => published) ∧
      (∀ caller, ∀ leaf ∈ (guard.serves fields caller).rule.leaves,
        ¬ leaf.2.MayEnd (.error .cancelled)) ∧
      Series (guard.serves fields) (opened 1 .null []) turns ∧
      ((passed turns).works 0 matches .done (.result (.resolved (.string "text")))) ∧
      ((passed turns).works 1 matches .done (.result (.failed "no row"))) ∧
      ((passed turns).works 2 matches .done (.result (.denied ⟨.refused, "draft"⟩))) ∧
      ((passed turns).works 3 matches .done (.result .cancelled)) ∧
      (passed turns).state.trace.lines 1 = [(.info, [("message", "field access denied"),
        ("field", "Post.title"), ("request", "req-1"), ("message", "draft")])] ∧
      Aborts guard fields (opened 1 .null []) turns ∧
      ∃ decision, Settles guard fields (fun _ => published) 1 third decision
        (passed [first, second]) (passed [first, second, third]) (passed turns) := by
  -- The resolver of the second field fails, and the third field is denied after a delay.
  intro published guard fields first second third last passed turns
  have leaves (caller : Nat) : (guard.serves fields caller).rule.leaves = [(1, published)] := rfl
  have named : ∀ caller, (guard.serves fields caller).rule.Named fun _ => published := by
    intro caller leaf member
    rw [leaves, List.mem_singleton] at member
    rw [member]
  have honest : ∀ caller, ∀ leaf ∈ (guard.serves fields caller).rule.leaves,
      ¬ leaf.2.MayEnd (.error .cancelled) := by
    intro caller leaf member
    rw [leaves, List.mem_singleton] at member
    rw [member]
    rintro ⟨invocation, evidence, moment, ends⟩
    cases ends with
    | wait pause resume later decision ends =>
      split at ends <;> cases ends
  have series : Series (guard.serves fields) (opened 1 .null []) turns :=
    series_of_serial (by decide +kernel)
  have shape := request_shape _ named honest 1 .null [] turns series
  have lines : (passed turns).state.trace.lines 1 = [(.info, [("message", "field access denied"),
        ("field", "Post.title"), ("request", "req-1"), ("message", "draft")])] := by decide +kernel
  have live : (passed [first, second]).state.request.cancelled = false := by decide +kernel
  refine ⟨named, honest, series, ?_, ?_, ?_, ?_, lines, shape.1 rfl,
    shape.2.2 [first, second] third [last] rfl live⟩
  all_goals decide +kernel

end Traffic

end FieldGuard
