import FieldGuard.Proofs.Cancellation
import FieldGuard.Proofs.Meaning
import FieldGuard.Proofs.SingleFlight

set_option autoImplicit false

namespace FieldGuard

def Fate.allowed? : Fate → Option Bool
  | .resolves => some true
  | .refused => some false
  | .cancelled => none

def Work.allowed? : Work → Option Bool
  | .done (.decision decision) => some decision.isAllowed
  | work => work.fate?.bind Fate.allowed?

theorem Work.allowed?_of_fate (work : Work) (fate : Fate) (met : work.fate? = some fate) :
    work.allowed? = fate.allowed? := by
  cases work with
  | done answer =>
    cases answer with
    | decision decision => cases met
    | _ => simp [allowed?, met]
  | _ => simp [allowed?, met]

theorem Work.allowed?_ofStage {stage : Stage} {allowed : Bool}
    (shown : (Work.ofStage stage).allowed? = some allowed) :
    ∃ decision, stage = .settled decision ∧ decision.isAllowed = allowed := by
  cases stage with
  | settled decision => exact ⟨decision, rfl, by simpa [ofStage, allowed?] using shown⟩
  | _ => simp [ofStage, allowed?, fate?] at shown

theorem Decision.isAllowed_of_fate {decision : Decision} {allowed : Bool}
    (shown : decision.fate.allowed? = some allowed) : decision.isAllowed = allowed := by
  cases decision with
  | error fault => cases fault <;> simp_all [fate, Fate.allowed?, isAllowed]
  | _ => simpa [fate, Fate.allowed?, isAllowed] using shown

namespace Call

variable (now : Nat) (call : Call) (work : Work) (state : State)

theorem poll_shown {stage : Stage} (reached : call.reached work = some stage) {allowed : Bool}
    (shown : (call.poll now work state).1.allowed? = some allowed) :
    call.isRefused stage state = false ∧
      ∃ decision, (call.rule.poll (call.visit now) stage (call.entered now stage state)).1 =
        .settled decision ∧ decision.isAllowed = allowed := by
  have waiting : ∀ answer, work ≠ .done answer := by
    rintro answer rfl
    simp [reached_done] at reached
  cases call with
  | evaluate rule precedence access =>
    rw [reached_evaluate work rule precedence access waiting] at reached
    cases reached
    rw [poll_evaluate now work state rule precedence access waiting] at shown
    exact ⟨rfl, Work.allowed?_ofStage shown⟩
  | check guard access =>
    rw [reached_check work guard access waiting] at reached
    cases reached
    rw [poll_check now work state guard access waiting, Guard.pollCheck_eq] at shown
    exact ⟨rfl, Work.allowed?_ofStage shown⟩
  | resolve guard access resolver =>
    cases admitted : (stage.isFresh && state.request.cancelled) with
    | true =>
      obtain ⟨-, resolution⟩ := resolution_of_reached work guard access resolver stage reached
      rw [poll_resolve now work state guard access resolver waiting] at shown
      simp only [resolution] at shown
      rw [guard.pollResolve_refused resolver _ stage state admitted] at shown
      cases shown
    | false =>
      obtain ⟨later, after, polled, ⟨decision, rfl, outcome⟩ | ⟨-, outcome⟩⟩ :=
        poll_admitted now work state guard access resolver stage reached admitted
      · rw [outcome] at shown
        simp only [Prod.map_fst] at shown
        rw [Work.allowed?_of_fate _ decision.fate
          ((Work.ofResolution_fate _).trans (guard.conclude_fate _ _ _ _))] at shown
        exact ⟨admitted, decision, congrArg Prod.fst polled, Decision.isAllowed_of_fate shown⟩
      -- a rule that waits shows nothing
      · rw [outcome] at shown
        cases shown

theorem poll_unreached (unreached : call.reached work = none) :
    (call.poll now work state).1.allowed? = work.allowed? := by
  rcases work.done_or_waiting with ⟨answer, rfl⟩ | waiting
  · rw [poll_done]
  cases call with
  | evaluate rule precedence access =>
    rw [reached_evaluate work rule precedence access waiting] at unreached
    cases unreached
  | check guard access =>
    rw [reached_check work guard access waiting] at unreached
    cases unreached
  | resolve guard access resolver =>
    rw [reached_resolve work guard access resolver waiting] at unreached
    have met : ∃ fate, work.fate? = some fate := by
      cases work with
      | resolution reached =>
        cases reached with
        | authorizing stage => cases unreached
        | _ => exact ⟨_, rfl⟩
      | done answer => exact absurd rfl (waiting answer)
      | _ => cases unreached
    obtain ⟨fate, met⟩ := met
    rw [work.allowed?_of_fate fate met,
      Work.allowed?_of_fate _ fate (poll_fate guard access resolver now work state fate met)]

structure Honest (reply : RuleId → Decision → Prop) : Prop where
  stage : ∀ stage, call.reached work = some stage → call.rule.Sound reply call.precedence stage
  shown : ∀ allowed, work.allowed? = some allowed →
    ∃ decision, call.rule.Yields reply call.precedence decision ∧ decision.isAllowed = allowed

variable {now call work state} {reply : RuleId → Decision → Prop}

theorem Honest.poll (honest : call.Honest work reply)
    (heard : Rule.Heard reply (call.probes now work state)) :
    call.Honest (call.poll now work state).1 reply where
  stage := by
    intro later same
    have polled := call.poll_polled now work state
    generalize (call.poll now work state).2 = after at polled
    generalize (call.poll now work state).1 = reached at polled same
    generalize call.probes now work state = probes at polled heard
    cases polled with
    | idle _ _ calm left =>
      rcases left with done | still
      · simp [done] at same
      · exact honest.stage later (still ▸ same)
    | asked stage _ _ reached leave left =>
      rcases left with done | ⟨onward, _⟩
      · simp [done] at same
      · rw [onward] at same
        cases same
        exact Rule.poll_sound _ (call.visit_precedence now) _ _ _ (honest.stage stage reached) heard
  shown := by
    intro allowed shown
    cases reached : call.reached work with
    | none => exact honest.shown allowed ((call.poll_unreached now work state reached).symm.trans shown)
    | some stage =>
      obtain ⟨admitted, decision, decided, same⟩ := call.poll_shown now work state reached shown
      have sound := Rule.poll_sound _ (call.visit_precedence now) _ _
        (call.entered now stage state) (honest.stage stage reached)
        (by simpa [probes, reached, admitted] using heard)
      rw [decided, Rule.sound_settled] at sound
      exact ⟨decision, sound, same⟩

theorem Honest.fresh (call : Call) (reply : RuleId → Decision → Prop) : call.Honest .fresh reply where
  stage := by
    intro stage reached
    have fresh : stage = .fresh := by
      cases call <;> simp_all [Call.reached, Work.stage, Work.resolution?]
    rw [fresh]
    exact Rule.sound_fresh _ _ _
  shown := by simp [Work.allowed?, Work.fate?]

theorem Honest.dropped (honest : call.Honest work reply) :
    call.Honest (Traffic.dropped work) reply where
  stage := by simp [Traffic.reached_dropped]
  shown := by
    cases work with
    | done answer => exact honest.shown
    | _ => simp [Traffic.dropped, Work.allowed?, Work.fate?]

end Call

/-- Whoever asks a leaf of the rule joins one evaluation of it, and no evaluation fails. -/
structure Rule.Steady (rule : Rule) : Prop where
  shared : ∀ leaf ∈ rule.leaves, leaf.2.sharing = .none →
    ∃ allowed, leaf.2.predicate = .constant allowed
  clear : ∀ leaf ∈ rule.leaves, ∀ decision, leaf.2.MayEnd decision → decision.isError = false

namespace Traffic

variable {calls : Nat → Call} {caller : Nat} {reply : RuleId → Decision → Prop}

theorem step_honest (traffic : Traffic) (move : Move)
    (honest : (calls caller).Honest (traffic.works caller) reply)
    (heard : Heard caller reply (asked calls traffic move)) :
    (calls caller).Honest ((step calls traffic move).works caller) reply := by
  by_cases own : (∃ now, move = .poll caller now) ∨ move = .drop caller
  · rcases own with ⟨now, rfl⟩ | rfl
    · simp only [step, Function.update_self]
      apply honest.poll
      intro probe member
      exact heard (caller, probe) (by simpa [asked] using member) rfl
    · simp only [step, Function.update_self]
      exact honest.dropped
  · rw [not_or] at own
    rw [step_works calls caller traffic move own.2 (by simpa using own.1)]
    exact honest

theorem run_honest (traffic : Traffic) (moves : List Move)
    (honest : (calls caller).Honest (traffic.works caller) reply)
    (heard : Heard caller reply (probes calls traffic moves)) :
    (calls caller).Honest ((run calls traffic moves).works caller) reply := by
  induction moves generalizing traffic with
  | nil => exact honest
  | cons move rest ih =>
    apply ih (step calls traffic move)
    · exact step_honest traffic move honest
        (fun pair member => heard pair (List.mem_append_left _ member))
    · exact fun pair member => heard pair (List.mem_append_right _ member)

theorem probe_access (traffic : Traffic) (moves : List Move) (pair : Nat × Probe)
    (member : pair ∈ probes calls traffic moves) :
    pair.2.visit.access = (calls pair.1).access := by
  induction moves generalizing traffic with
  | nil => cases member
  | cons move rest ih =>
    rcases List.mem_append.mp member with head | tail
    · cases move with
      | poll caller now =>
        obtain ⟨probe, found, rfl⟩ := List.mem_map.mp head
        have visited : probe.visit = (calls caller).visit now := by
          unfold Call.probes at found
          split at found
          · cases found
          · split at found
            · cases found
            · exact (Rule.mem_probes _ _ _ _ probe found).1
        exact visited ▸ (calls caller).visit_access now
      | _ => cases head
    · exact ih _ tail

theorem probe_named {questions : RuleId → Question}
    (named : ∀ other, (calls other).rule.Named questions) (id : RequestId) (context : Json)
    (history : Trace) (moves : List Move) (pair : Nat × Probe)
    (member : pair ∈ probes calls (opened id context history) moves) :
    pair.2.question = questions pair.2.id ∧ pair.2.state.request.id = id := by
  have invariant := flights_invariant questions named id
  have opened : Question.AllLead questions (Memo.empty) := fun _ _ found => (by cases found)
  have asked := ((invariant.opened id context history ⟨rfl, opened⟩).run invariant moves).2 pair member
  exact ⟨asked.stage.1, asked.state.1⟩

def Remembered (questions : RuleId → Question) (access : FieldAccess) (request : Request)
    (leaf : RuleId) (decision : Decision) : Prop :=
  (questions leaf).MayEnd decision ∧
    ∀ key, Key.of? (questions leaf).sharing leaf request.id access = some key →
      request.memo.find? key = some (.settled decision)

def recalled (questions : RuleId → Question) (access : FieldAccess) (request : Request)
    (leaf : RuleId) : Bool :=
  match Key.of? (questions leaf).sharing leaf request.id access with
  | some key =>
      match request.memo.find? key with
      | some (.settled decision) => decision.isAllowed
      | _ => false
  | none =>
      match (questions leaf).predicate with
      | .constant allowed => allowed
      | .custom _ => false

theorem Remembered.isAllowed_eq {questions : RuleId → Question} {access : FieldAccess}
    {request : Request} {leaf : RuleId} {decision : Decision}
    (shared : (questions leaf).sharing = .none →
      ∃ allowed, (questions leaf).predicate = .constant allowed)
    (remembered : Remembered questions access request leaf decision) :
    decision.isAllowed = recalled questions access request leaf := by
  obtain ⟨ends, kept⟩ := remembered
  unfold recalled
  cases known : Key.of? (questions leaf).sharing leaf request.id access with
  | some key => simp only [kept key known]
  | none =>
    -- only constants have no key
    have alone : (questions leaf).sharing = .none := by
      cases sharing : (questions leaf).sharing <;> simp_all [Key.of?]
    obtain ⟨allowed, constant⟩ := shared alone
    simp only [Question.MayEnd, constant] at ends ⊢
    cases allowed <;> simp [ends, Decision.isAllowed]

theorem Remembered.holds {questions : RuleId → Question} {access : FieldAccess} {request : Request}
    {rule : Rule} {precedence : Precedence} {decision : Decision} (named : rule.Named questions)
    (steady : rule.Steady)
    (yields : rule.Yields (Remembered questions access request) precedence decision) :
    decision.isAllowed = rule.holds (recalled questions access request) := by
  apply yields.isAllowed_eq
  · intro leaf member answer given
    refine given.isAllowed_eq ?_
    rw [← named leaf member]
    exact steady.shared leaf member
  · intro leaf below answer given
    have member := rule.negatedLeaves_subset below
    exact steady.clear leaf member answer (named leaf member ▸ given.1)

theorem heard_remembered {questions : RuleId → Question}
    (named : ∀ other, (calls other).rule.Named questions) (id : RequestId) (context : Json)
    (history : Trace) (moves : List Move)
    (running : (run calls (opened id context history) moves).state.request.cancelled = false)
    (access : FieldAccess) (parent : (calls caller).access.parent = access.parent)
    (args : (calls caller).access.args = access.args) :
    Heard caller
      (Remembered questions access (run calls (opened id context history) moves).state.request)
      (probes calls (opened id context history) moves) := by
  rintro pair member rfl decision settled
  obtain ⟨same, request⟩ := probe_named named id context history moves pair member
  refine ⟨reply_mayEnd questions named id context history moves running pair member decision settled,
    fun key known => ?_⟩
  have final := (run_records calls id context history moves).id
  apply run_kept calls id context history moves pair member key decision
  refine ⟨?_, asked_running _ moves running pair member, settled⟩
  rw [same, request, probe_access _ moves pair member, ← known, final]
  simp only [Key.of?, parent, args]

/-- On a request that is never cancelled, evaluations of one rule with the same parent and arguments
agree, if each custom leaf of it is shared and only allows or denies. It does not matter which of the
leaves had settled when the earlier evaluation was decided, nor what became of its caller. -/
theorem evaluations_agree (calls : Nat → Call) (first second : Nat) (questions : RuleId → Question)
    (named : ∀ caller, (calls caller).rule.Named questions)
    (rule : (calls first).rule = (calls second).rule) (steady : (calls second).rule.Steady)
    (parent : (calls first).access.parent = (calls second).access.parent)
    (args : (calls first).access.args = (calls second).access.args) (id : RequestId)
    (context : Json) (history : Trace) (moves later : List Move)
    (running : (run calls (opened id context history) (moves ++ later)).state.request.cancelled = false)
    (allowed other : Bool)
    (decided : ((run calls (opened id context history) moves).works first).allowed? = some allowed)
    (redecided : ((run calls (opened id context history) (moves ++ later)).works second).allowed? =
      some other) : allowed = other := by
  generalize final : (run calls (opened id context history) (moves ++ later)).state.request = request
    at running
  -- both evaluations heard what the memo says at the end, which is one answer for each leaf
  have heard (caller : Nat) (parent : (calls caller).access.parent = (calls second).access.parent)
      (args : (calls caller).access.args = (calls second).access.args) :=
    heard_remembered named id context history (moves ++ later) (final ▸ running) _ parent args
  have fresh (caller : Nat) := Call.Honest.fresh (calls caller)
    (Remembered questions (calls second).access request)
  have early := run_honest (opened id context history) moves (fresh first) (by
    intro pair member
    rw [← final]
    exact heard first parent args pair (probes_append calls _ _ _ ▸ List.mem_append_left _ member))
  have late := run_honest (opened id context history) (moves ++ later) (fresh second)
    (final ▸ heard second rfl rfl)
  obtain ⟨decision, yields, rfl⟩ := early.shown allowed decided
  obtain ⟨redecision, reyields, rfl⟩ := late.shown other redecided
  rw [rule] at yields
  rw [Remembered.holds (named second) steady yields, Remembered.holds (named second) steady reyields]

theorem evaluations_agree_hasty :
    let hasty : Question :=
      { name := "hasty", sharing := .strict
        predicate := .custom fun _ _ moment =>
          .settle (if moment.now = 0 then .allow else .deny none) }
    let questions := fun leaf => if leaf = 1 then Question.delayed 10 (.deny none) else hasty
    let rule := Rule.group 3 .or [.leaf 1 (questions 1), .leaf 2 (questions 2)]
    let guard : Guard :=
      { table := ⟨[], [], some rule, .deny, .constant 0 false⟩
        options := ⟨.redact, .last, "not authorized", "internal error"⟩ }
    let calls := fun caller => if caller = 0 then Call.evaluate rule .first (.bare "Query" "report")
      else .resolve guard (.bare "Query" "draft") ⟨5, .ok .null⟩
    ((run calls (opened 1 .null []) [.poll 0 0]).works 0).allowed? = some true ∧
      ((run calls (opened 1 .null []) ([.poll 0 0] ++ [.poll 1 10])).works 1).allowed?.isSome ∧
      ∀ other, ((run calls (opened 1 .null []) ([.poll 0 0] ++ [.poll 1 10])).works 1).allowed? =
        some other → true = other := by
  -- The earlier evaluation is decided while a leaf of it waits, and the later one, for another
  -- field, finds that leaf settled. The leaf that decides would deny at any other time.
  intro hasty questions rule guard calls
  have leaves : rule.leaves = [(1, questions 1), (2, questions 2)] := rfl
  have one (caller : Nat) : (calls caller).rule = rule := by
    by_cases first : caller = 0 <;> simp only [calls, first] <;> rfl
  have steady : rule.Steady := by
    constructor
    · simp [leaves, questions, hasty, Question.delayed]
    · intro leaf member decision ends
      simp only [leaves, List.mem_cons, List.not_mem_nil, or_false] at member
      rcases member with rfl | rfl
      · rw [Question.delayed_settles 10 (.deny none) decision ends]
        rfl
      · obtain ⟨_, _, moment, ends⟩ := ends
        cases ends
        split <;> rfl
  refine ⟨rfl, rfl, fun other redecided => evaluations_agree calls 0 1 questions ?_ rfl steady rfl rfl 1 .null []
    [.poll 0 0] [.poll 1 10] rfl true other rfl redecided⟩
  intro caller
  rw [one caller]
  simp [Rule.Named, leaves]

end Traffic

end FieldGuard
