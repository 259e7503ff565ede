import FieldGuard.Proofs.Interruption
import FieldGuard.Proofs.Returns

set_option autoImplicit false

namespace FieldGuard

/-- How a field ends: its request is cancelled, it is refused, or its resolver runs. -/
inductive Fate where
  | cancelled
  | refused
  | resolves
  deriving DecidableEq

def FieldResult.fate : FieldResult → Fate
  | .cancelled => .cancelled
  | .redacted _ | .denied _ => .refused
  | .resolved _ | .failed _ => .resolves

def Resolution.fate? : Resolution → Option Fate
  | .authorizing _ => none
  | .resolving _ => some .resolves
  | .returned result => some result.fate

def Work.fate? : Work → Option Fate
  | .done (.result result) => some result.fate
  | .resolution reached => reached.fate?
  | _ => none

def Decision.fate : Decision → Fate
  | .allow => .resolves
  | .error .cancelled => .cancelled
  | .deny _ | .error _ => .refused

theorem Resolver.await_fate (resolver : Resolver) (deadline now : Nat) :
    (resolver.await deadline now).fate? = some .resolves := by
  unfold Resolver.await Resolver.finish
  split
  · cases resolver.result <;> rfl
  · rfl

theorem Work.ofResolution_fate (resolution : Resolution) :
    (Work.ofResolution resolution).fate? = resolution.fate? := by
  cases resolution <;> rfl

namespace Guard

variable (guard : Guard) (resolver : Resolver) (visit : Visit) (stage : Stage) (state : State)

theorem refuse_fate (denial : Denial) : (guard.refuse denial state).1.fate? = some .refused := by
  unfold refuse
  cases guard.options.onDeny <;> rfl

theorem conclude_fate (decision : Decision) :
    (guard.conclude resolver visit decision state).1.fate? = some decision.fate := by
  unfold conclude
  split
  · exact resolver.await_fate _ _
  · exact guard.refuse_fate _ _
  · rfl
  · next fault unlike =>
    rw [guard.refuse_fate]
    cases fault with
    | cancelled => exact absurd rfl unlike
    | _ => rfl

theorem pollResolve_interrupted (cancelled : state.request.cancelled = true) :
    ∃ decision, (guard.selected visit.access).1.Interrupts visit.precedence stage decision ∧
      (guard.pollResolve resolver visit (.authorizing stage) state).1.fate? =
        some (if stage.isFresh then .cancelled else decision.fate) := by
  obtain ⟨decision, interrupts, polled⟩ :=
    (guard.selected visit.access).1.poll_interrupted (authorizing visit) stage
      (guard.entered (authorizing visit) stage state) (by simpa using cancelled)
  refine ⟨decision, interrupts, ?_⟩
  cases fresh : stage.isFresh with
  | true =>
    rw [guard.pollResolve_refused _ _ _ _ (by simp [fresh, cancelled])]
    rfl
  | false =>
    -- the rule has begun before, so it is polled and not refused
    have decided : (guard.pollCheck (authorizing visit) stage state).1 = .settled decision := by
      rw [pollCheck_eq]
      exact congrArg Prod.fst polled
    rw [guard.pollResolve_decided resolver visit stage state (by simp [fresh]) _ decided]
    exact guard.conclude_fate _ _ _ _

end Guard

namespace Call

variable (guard : Guard) (access : FieldAccess) (resolver : Resolver) (now : Nat) (work : Work)
  (state : State)

theorem poll_fate (fate : Fate) (met : work.fate? = some fate) :
    ((resolve guard access resolver).poll now work state).1.fate? = some fate := by
  rcases work.done_or_waiting with ⟨answer, rfl⟩ | waiting
  · exact met
  · rw [poll_resolve now work state guard access resolver waiting]
    simp only [Work.ofResolution_fate]
    cases work with
    | resolution reached =>
      cases reached with
      | authorizing stage => cases met
      | resolving deadline =>
        cases met
        exact resolver.await_fate _ _
      | returned result => exact met
    | done answer => exact absurd rfl (waiting answer)
    | _ => cases met

theorem poll_interrupted (stage : Stage)
    (authorizing : (resolve guard access resolver).reached work = some stage)
    (cancelled : state.request.cancelled = true) :
    ∃ decision, (guard.selected access).1.Interrupts guard.options.precedence stage decision ∧
      ((resolve guard access resolver).poll now work state).1.fate? =
        some (if stage.isFresh then .cancelled else decision.fate) := by
  obtain ⟨waiting, resolution⟩ := resolution_of_reached work guard access resolver stage authorizing
  rw [poll_resolve now work state guard access resolver waiting]
  simp only [Work.ofResolution_fate, resolution]
  exact guard.pollResolve_interrupted resolver (guard.visit now access) stage state cancelled

end Call

namespace Traffic

variable (calls : Nat → Call) (caller : Nat)

def Reached (traffic : Traffic) : Prop :=
  ∀ caller stage, (calls caller).reached (traffic.works caller) = some stage →
    stage.decision? = none ∧ (stage = .fresh ∨ (calls caller).rule.Begun stage)

theorem step_reached (traffic : Traffic) (reached : Reached calls traffic) (move : Move) :
    Reached calls (step calls traffic move) := by
  intro other stage known
  cases move with
  | cancel => exact reached other stage known
  | elsewhere records => exact reached other stage known
  | drop caller =>
    by_cases same : other = caller
    · subst same
      simp [step, reached_dropped] at known
    · exact reached other stage (by simpa [step, same] using known)
  | poll caller now =>
    by_cases same : other = caller
    · subst same
      have polled := (calls other).poll_polled now (traffic.works other) traffic.state
      simp only [step, Function.update_self] at known
      generalize (calls other).poll now (traffic.works other) traffic.state = result at polled known
      generalize (calls other).probes now (traffic.works other) traffic.state = probes at polled
      obtain ⟨work, after⟩ := result
      cases polled with
      | idle later after calm left =>
        rcases left with done | still
        · simp [done] at known
        · exact reached other stage (still ▸ known)
      | asked former later after found leave left =>
        rcases left with done | ⟨onward, waiting⟩
        · simp [done] at known
        · rw [onward] at known
          cases known
          exact ⟨waiting, Or.inr (Rule.poll_begun _ _ _ _)⟩
    · exact reached other stage (by simpa [step, same] using known)

theorem run_reached (id : RequestId) (context : Json) (history : Trace) (moves : List Move) :
    Reached calls (run calls (opened id context history) moves) := by
  have begin : Reached calls (opened id context history) := by
    intro other stage known
    have fresh := fresh_of_opened calls id context history other stage known
    subst fresh
    exact ⟨rfl, Or.inl rfl⟩
  generalize opened id context history = traffic at begin ⊢
  induction moves generalizing traffic with
  | nil => exact begin
  | cons move rest ih => exact ih _ (step_reached calls traffic begin move)

theorem step_cancelled (traffic : Traffic) (move : Move)
    (cancelled : traffic.state.request.cancelled = true) :
    (step calls traffic move).state.request.cancelled = true :=
  run_preserves (fun state => state.request.cancelled = true) (fun _ _ calm => calm.cancelled)
    (fun probe waiting => (probe.polled_of_waiting waiting).keeps.cancelled.trans) traffic [move]
    cancelled

variable {calls caller} {guard : Guard} {access : FieldAccess} {resolver : Resolver}

theorem run_fate (call : calls caller = .resolve guard access resolver) (traffic : Traffic)
    (fate : Fate) (met : (traffic.works caller).fate? = some fate) (moves : List Move)
    (undropped : .drop caller ∉ moves) :
    ((run calls traffic moves).works caller).fate? = some fate := by
  induction moves generalizing traffic with
  | nil => exact met
  | cons move rest ih =>
    rw [List.mem_cons, not_or] at undropped
    refine ih (step calls traffic move) ?_ undropped.2
    -- moves of others leave the call where it is
    by_cases polled : ∃ now, move = .poll caller now
    · obtain ⟨now, rfl⟩ := polled
      simp only [step, Function.update_self, call]
      exact Call.poll_fate guard access resolver now _ _ fate met
    · rw [step_works calls caller traffic move (Ne.symm undropped.1) (by simpa using polled)]
      exact met

theorem run_interrupted (call : calls caller = .resolve guard access resolver)
    (traffic : Traffic) (stage : Stage)
    (authorizing : (calls caller).reached (traffic.works caller) = some stage)
    (cancelled : traffic.state.request.cancelled = true) (moves : List Move)
    (undropped : .drop caller ∉ moves) (now : Nat) (polled : .poll caller now ∈ moves) :
    ∃ decision, (guard.selected access).1.Interrupts guard.options.precedence stage decision ∧
      ((run calls traffic moves).works caller).fate? =
        some (if stage.isFresh then .cancelled else decision.fate) := by
  induction moves generalizing traffic with
  | nil => cases polled
  | cons move rest ih =>
    rw [List.mem_cons, not_or] at undropped
    -- the first poll of the field meets its fate, and no later move changes it
    by_cases own : ∃ now, move = .poll caller now
    · obtain ⟨now, rfl⟩ := own
      rw [call] at authorizing
      obtain ⟨decision, interrupts, met⟩ :=
        Call.poll_interrupted guard access resolver now _ _ stage authorizing cancelled
      refine ⟨decision, interrupts, run_fate call _ _ ?_ rest undropped.2⟩
      simpa only [step, Function.update_self, call] using met
    · have later : .poll caller now ∈ rest := by
        rcases List.mem_cons.mp polled with rfl | inside
        · exact absurd ⟨now, rfl⟩ own
        · exact inside
      have works := step_works calls caller traffic move (Ne.symm undropped.1) (by simpa using own)
      exact ih (step calls traffic move) (by rwa [works]) (step_cancelled calls traffic move cancelled)
        undropped.2 later

/-- When a request is cancelled while a field is being authorized, the field meets the fate of a
decision to which its rule may come when every leaf that still waits fails. It does so at the next
poll, whatever else happens to the request. If the rule has no alternatives, it is cancelled. -/
theorem fate_of_interrupted (call : calls caller = .resolve guard access resolver) (id : RequestId)
    (context : Json) (history : Trace) (earlier : List Move) (stage : Stage)
    (authorizing : (calls caller).reached
      ((run calls (opened id context history) earlier).works caller) = some stage)
    (cancelled : (run calls (opened id context history) earlier).state.request.cancelled = true)
    (moves : List Move) (undropped : .drop caller ∉ moves) (now : Nat)
    (polled : .poll caller now ∈ moves) :
    (∃ decision, (guard.selected access).1.Interrupts guard.options.precedence stage decision ∧
        ((run calls (opened id context history) (earlier ++ moves)).works caller).fate? =
          some (if stage.isFresh then .cancelled else decision.fate)) ∧
      ((guard.selected access).1.hasAlternatives = false →
        ((run calls (opened id context history) (earlier ++ moves)).works caller).fate? =
          some .cancelled) := by
  obtain ⟨decision, interrupts, met⟩ :=
    run_interrupted call _ stage authorizing cancelled moves undropped now polled
  rw [run_append]
  refine ⟨⟨decision, interrupts, met⟩, fun conjunctive => ?_⟩
  rw [met]
  cases fresh : stage.isFresh with
  | true => rfl
  | false =>
    obtain ⟨waiting, rfl | begun⟩ := run_reached calls id context history earlier caller stage authorizing
    · cases fresh
    -- a rule that waits and has no alternatives can only report the cancellation
    · rw [call] at begun
      rw [interrupts.of_begun conjunctive begun waiting]
      rfl

theorem fate_of_interrupted_alternatives :
    let slow := fun id => Rule.leaf id (.delayed 10 .allow)
    let rule := Rule.not 6 (.group 5 .and
      [slow 1, .group 4 .or [slow 2, .leaf 3 (.delayed 0 (.deny none))]])
    let guard : Guard :=
      { table := ⟨[], [], some rule, .deny, .constant 0 false⟩
        options := ⟨.redact, .last, "not authorized", "internal error"⟩ }
    let calls := fun _ => .resolve guard (.bare "Query" "report") ⟨0, .ok .null⟩
    let refusal := Stage.settled (.deny none)
    let stage : Stage := .group
      [.shared ⟨1, 1, none⟩, .group [.shared ⟨1, 2, none⟩, refusal] (some (.deny none))] none
    (rule.Interrupts .last stage (.error .cancelled) ∧ rule.Interrupts .last stage .allow) ∧
      ∃ decision, rule.Interrupts .last stage decision ∧
        ((run calls (opened 1 .null []) [.poll 0 0, .cancel, .poll 0 5]).works 0).fate? =
          some decision.fate := by
  -- Two leaves wait when the request is cancelled. The one that ends first decides between the two
  -- fates: the resolver would run if the alternative got ahead, which reports its last refusal.
  intro slow rule guard calls refusal stage
  have leaf (id : RuleId) : (slow id).Interrupts .last (.shared ⟨1, id, none⟩) (.error .cancelled) :=
    .leaf id _ _ rfl
  have alternative : (Rule.group 4 .or [slow 2, .leaf 3 (.delayed 0 (.deny none))]).Interrupts .last
      (.group [.shared ⟨1, 2, none⟩, refusal] (some (.deny none))) (.deny none) :=
    .concluded 4 .or _ _ [.error .cancelled, .deny none] (some (.deny none)) rfl
      (.cons (leaf 2) (.cons (.settled _ _) .nil)) ⟨by decide, by simp, by simp⟩
  refine ⟨⟨?_, ?_⟩, ?_⟩
  · exact .not 6 _ stage (.error .cancelled) rfl
      (.decided 5 .and _ stage [] (slow 1) _ _ _ rfl rfl (by simp) (leaf 1) rfl)
  · exact .not 6 _ stage (.deny none) rfl
      (.decided 5 .and _ stage [_] _ _ [] _ rfl rfl (by simp) alternative rfl)
  · have call : calls 0 = .resolve guard (.bare "Query" "report") ⟨0, .ok .null⟩ := rfl
    exact (fate_of_interrupted call 1 .null [] [.poll 0 0, .cancel] stage rfl rfl [.poll 0 5]
      (by simp) 5 (by simp)).1

theorem cancellation_unnoticed :
    let alternatives := Rule.group 3 .or
      [.leaf 1 (.delayed 10 .allow), .leaf 2 (.delayed 0 (.deny none))]
    let guarded := fun rule => (fun _ => .resolve
      { table := ⟨[], [], some rule, .deny, .constant 0 false⟩
        options := ⟨.redact, .last, "not authorized", "internal error"⟩ }
      (.bare "Query" "report") ⟨0, .ok .null⟩ : Nat → Call)
    let cancelled := fun rule =>
      run (guarded rule) (opened 1 .null []) [.poll 0 0, .cancel, .poll 0 5]
    (cancelled alternatives).works 0 =
        .done (.result (.redacted ⟨.refused, "not authorized"⟩)) ∧
      (cancelled (.not 4 alternatives)).works 0 = .done (.result (.resolved .null)) :=
  -- When an alternative has already refused and another still waits, a cancellation may go
  -- unnoticed: the refusal is reported, and below a negation the resolver runs.
  ⟨rfl, rfl⟩

end Traffic

end FieldGuard
