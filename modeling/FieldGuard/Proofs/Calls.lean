import FieldGuard.Proofs.Leaves
import FieldGuard.Simulation.World

set_option autoImplicit false

namespace FieldGuard

namespace RuleTable

def mapRules (change : Rule → Rule) (table : RuleTable) : RuleTable :=
  { table with
    fields := table.fields.map fun entry => (entry.1, change entry.2)
    typeFallbacks := table.typeFallbacks.map fun entry => (entry.1, change entry.2)
    fallback := table.fallback.map change
    defaultRule := change table.defaultRule }

theorem lookup_mapRules (change : Rule → Rule) (table : RuleTable) (parentType field : String) :
    (table.mapRules change).lookup parentType field =
      (table.lookup parentType field).map change id := by
  simp only [lookup, mapRules, lookup_mapped]
  cases table.fields.lookup (parentType, field) with
  | some rule => rfl
  | none =>
    cases table.typeFallbacks.lookup parentType with
    | some rule => rfl
    | none => cases table.fallback <;> rfl

end RuleTable

namespace Guard

def selected (guard : Guard) (access : FieldAccess) : Rule × Source :=
  guard.table.lookup access.site.parentType access.site.fieldName

def entered (guard : Guard) (visit : Visit) (stage : Stage) (state : State) : State :=
  if stage.isFresh then
    let (rule, source) := guard.selected visit.access
    state.record visit (.selected source rule.display)
  else state

def left (visit : Visit) (stage : Stage) (state : State) : State :=
  match stage.decision? with
  | some decision => state.record visit (.decided decision)
  | none => state

def authorizing (visit : Visit) : Visit := { visit with span := some visit.access.site }

variable (guard : Guard) (resolver : Resolver) (visit : Visit) (stage : Stage) (state : State)

theorem pollCheck_eq :
    guard.pollCheck visit stage state =
      let polled := (guard.selected visit.access).1.poll visit stage (guard.entered visit stage state)
      (polled.1, left visit polled.1 polled.2) := by
  simp only [pollCheck, selected, entered]
  -- the last record is written only if there is a decision
  generalize Rule.poll _ _ _ _ = polled
  obtain ⟨later, after⟩ := polled
  cases later <;> rfl

theorem pollResolve_refused (refused : (stage.isFresh && state.request.cancelled) = true) :
    guard.pollResolve resolver visit (.authorizing stage) state = (.returned .cancelled, state) := by
  simp only [pollResolve, refused, if_true]

theorem pollResolve_waiting (admitted : (stage.isFresh && state.request.cancelled) = false)
    (waiting : (guard.pollCheck (authorizing visit) stage state).1.decision? = none) :
    guard.pollResolve resolver visit (.authorizing stage) state =
      (.authorizing (guard.pollCheck (authorizing visit) stage state).1,
        (guard.pollCheck (authorizing visit) stage state).2) := by
  unfold authorizing at waiting ⊢
  simp only [pollResolve, admitted, Bool.false_eq_true, if_false]
  generalize guard.pollCheck _ stage state = polled at waiting ⊢
  obtain ⟨later, after⟩ := polled
  cases later with
  | settled decision => cases waiting
  | _ => rfl

theorem pollResolve_decided (admitted : (stage.isFresh && state.request.cancelled) = false)
    (decision : Decision)
    (decided : (guard.pollCheck (authorizing visit) stage state).1 = .settled decision) :
    guard.pollResolve resolver visit (.authorizing stage) state =
      guard.conclude resolver visit decision (guard.pollCheck (authorizing visit) stage state).2 := by
  unfold authorizing at decided ⊢
  simp only [pollResolve, admitted, Bool.false_eq_true, if_false]
  generalize guard.pollCheck _ stage state = polled at decided ⊢
  obtain ⟨later, after⟩ := polled
  cases decided
  rfl

theorem left_waiting (waiting : stage.decision? = none) : left visit stage state = state := by
  unfold left
  rw [waiting]

@[simp] theorem entered_request : (guard.entered visit stage state).request = state.request := by
  unfold entered
  split <;> rfl

@[simp] theorem left_request : (left visit stage state).request = state.request := by
  unfold left
  split <;> rfl

theorem entered_calm : state.Calm (guard.entered visit stage state) := by
  unfold entered
  split
  · exact state.calm_record _ _ (by simp)
  · exact state.calm_refl

theorem left_calm : state.Calm (left visit stage state) := by
  unfold left
  split
  · exact state.calm_record _ _ (by simp)
  · exact state.calm_refl

theorem refuse_calm (denial : Denial) :
    state.Calm (guard.refuse denial state).2 ∧
      ∃ result, (guard.refuse denial state).1 = .returned result := by
  unfold refuse
  cases guard.options.onDeny with
  | redact => exact ⟨state.calm_refl, _, rfl⟩
  | abort => exact ⟨state.calm_cancel, _, rfl⟩

theorem conclude_calm (decision : Decision) :
    state.Calm (guard.conclude resolver visit decision state).2 ∧
      ∀ stage, (guard.conclude resolver visit decision state).1 ≠ .authorizing stage := by
  unfold conclude
  split
  · refine ⟨state.calm_record _ _ (by simp), ?_⟩
    intro stage
    simp only [Resolver.await]
    split <;> simp
  · obtain ⟨calm, result, same⟩ := guard.refuse_calm (state.record visit (.denied _ _)) _
    exact ⟨(state.calm_record _ _ (by simp)).trans calm, by simp [same]⟩
  · exact ⟨state.calm_refl, by simp⟩
  · obtain ⟨calm, result, same⟩ := guard.refuse_calm (state.record visit (.faulted _ _)) _
    exact ⟨(state.calm_record _ _ (by simp)).trans calm, by simp [same]⟩

end Guard

theorem Work.done_or_waiting (work : Work) :
    (∃ answer, work = .done answer) ∨ ∀ answer, work ≠ .done answer := by
  cases work <;> simp

inductive Call where
  | evaluate (rule : Rule) (precedence : Precedence) (access : FieldAccess)
  | check (guard : Guard) (access : FieldAccess)
  | resolve (guard : Guard) (access : FieldAccess) (resolver : Resolver)

def FieldAccess.bare (parentType field : String) : FieldAccess :=
  { site := ⟨parentType, field, [field]⟩, parent := .null, args := .null }

namespace Call

def access : Call → FieldAccess
  | .evaluate _ _ access | .check _ access | .resolve _ access _ => access

def rule : Call → Rule
  | .evaluate rule _ _ => rule
  | .check guard access | .resolve guard access _ => (guard.selected access).1

def visit (now : Nat) : Call → Visit
  | .evaluate _ precedence access => { now, access, precedence, span := none }
  | .check guard access => guard.visit now access
  | .resolve guard access _ => Guard.authorizing (guard.visit now access)

def poll (now : Nat) (call : Call) (work : Work) (state : State) : Work × State :=
  match work, call with
  | .done answer, _ => (.done answer, state)
  | work, .evaluate rule precedence access =>
      let visit := { now, access, precedence, span := none }
      let (stage, state) := rule.poll visit work.stage state
      (.ofStage stage, state)
  | work, .check guard access =>
      let (stage, state) := guard.pollCheck (guard.visit now access) work.stage state
      (.ofStage stage, state)
  | work, .resolve guard access resolver =>
      let (resolution, state) :=
        guard.pollResolve resolver (guard.visit now access) work.resolution? state
      (.ofResolution resolution, state)

/-- How far the rule of a call has come, for as long as the call waits for it. -/
def reached (call : Call) (work : Work) : Option Stage :=
  match work, call with
  | .done _, _ => none
  | work, .evaluate _ _ _ | work, .check _ _ => some work.stage
  | work, .resolve _ _ _ =>
      match work.resolution? with
      | .authorizing stage => some stage
      | _ => none

def isRefused (call : Call) (stage : Stage) (state : State) : Bool :=
  match call with
  | .resolve _ _ _ => stage.isFresh && state.request.cancelled
  | _ => false

def entered (now : Nat) (call : Call) (stage : Stage) (state : State) : State :=
  match call with
  | .evaluate _ _ _ => state
  | .check guard _ | .resolve guard _ _ => guard.entered (call.visit now) stage state

def probes (now : Nat) (call : Call) (work : Work) (state : State) : List Probe :=
  match call.reached work with
  | none => []
  | some stage =>
      if call.isRefused stage state then []
      else call.rule.probes (call.visit now) stage (call.entered now stage state)

variable (now : Nat) (call : Call) (work : Work) (state : State)

theorem visit_access : (call.visit now).access = call.access := by
  cases call <;> rfl

theorem reached_done (answer : Answer) : call.reached (.done answer) = none := by
  cases call <;> rfl

theorem calm_entered (stage : Stage) : state.Calm (call.entered now stage state) := by
  cases call with
  | evaluate rule precedence access => exact state.calm_refl
  | check guard access => exact guard.entered_calm _ stage state
  | resolve guard access resolver => exact guard.entered_calm _ stage state

/-- What a poll of a call comes to: nothing that concerns its rule, or one poll of the rule. -/
inductive Polled : Work → State → List Probe → Prop
  | idle (later : Work) (after : State) (calm : state.Calm after)
      (left : call.reached later = none ∨ call.reached later = call.reached work) :
      Polled later after []
  | asked (stage : Stage) (later : Work) (after : State) (reached : call.reached work = some stage)
      (leave : State.Calm
        (call.rule.poll (call.visit now) stage (call.entered now stage state)).2 after)
      (left : call.reached later = none ∨ call.reached later =
          some (call.rule.poll (call.visit now) stage (call.entered now stage state)).1 ∧
        (call.rule.poll (call.visit now) stage (call.entered now stage state)).1.decision? = none) :
      Polled later after (call.rule.probes (call.visit now) stage (call.entered now stage state))

theorem reached_ofStage (stage : Stage) (decides : ∀ guard access resolver,
      call ≠ .resolve guard access resolver) :
    call.reached (.ofStage stage) = none ∨
      call.reached (.ofStage stage) = some stage ∧ stage.decision? = none := by
  cases call with
  | resolve guard access resolver => exact absurd rfl (decides guard access resolver)
  | evaluate rule precedence access =>
    cases stage <;> simp [Work.ofStage, reached, Work.stage, Stage.decision?]
  | check guard access =>
    cases stage <;> simp [Work.ofStage, reached, Work.stage, Stage.decision?]

theorem reached_evaluate (rule : Rule) (precedence : Precedence) (access : FieldAccess)
    (waiting : ∀ answer, work ≠ .done answer) :
    (evaluate rule precedence access).reached work = some work.stage := by
  cases work <;> first | rfl | exact absurd rfl (waiting _)

theorem reached_check (guard : Guard) (access : FieldAccess)
    (waiting : ∀ answer, work ≠ .done answer) :
    (check guard access).reached work = some work.stage := by
  cases work <;> first | rfl | exact absurd rfl (waiting _)

theorem reached_resolve (guard : Guard) (access : FieldAccess) (resolver : Resolver)
    (waiting : ∀ answer, work ≠ .done answer) :
    (resolve guard access resolver).reached work =
      match work.resolution? with
      | .authorizing stage => some stage
      | _ => none := by
  cases work <;> first | rfl | exact absurd rfl (waiting _)

theorem resolution_of_reached (guard : Guard) (access : FieldAccess) (resolver : Resolver)
    (stage : Stage) (authorizing : (resolve guard access resolver).reached work = some stage) :
    (∀ answer, work ≠ .done answer) ∧ work.resolution? = .authorizing stage := by
  have waiting : ∀ answer, work ≠ .done answer := by
    rintro answer rfl
    simp [reached_done] at authorizing
  rw [reached_resolve work guard access resolver waiting] at authorizing
  refine ⟨waiting, ?_⟩
  cases reached : work.resolution? <;> simp_all

theorem poll_evaluate (rule : Rule) (precedence : Precedence) (access : FieldAccess)
    (waiting : ∀ answer, work ≠ .done answer) :
    (evaluate rule precedence access).poll now work state =
      let visit := { now, access, precedence, span := none }
      (.ofStage (rule.poll visit work.stage state).1, (rule.poll visit work.stage state).2) := by
  cases work <;> first | rfl | exact absurd rfl (waiting _)

theorem poll_check (guard : Guard) (access : FieldAccess)
    (waiting : ∀ answer, work ≠ .done answer) :
    (check guard access).poll now work state =
      let polled := guard.pollCheck (guard.visit now access) work.stage state
      (.ofStage polled.1, polled.2) := by
  cases work <;> first | rfl | exact absurd rfl (waiting _)

theorem poll_resolve (guard : Guard) (access : FieldAccess) (resolver : Resolver)
    (waiting : ∀ answer, work ≠ .done answer) :
    (resolve guard access resolver).poll now work state =
      let polled := guard.pollResolve resolver (guard.visit now access) work.resolution? state
      (.ofResolution polled.1, polled.2) := by
  cases work <;> first | rfl | exact absurd rfl (waiting _)

theorem poll_admitted (guard : Guard) (access : FieldAccess) (resolver : Resolver) (stage : Stage)
    (reached : (resolve guard access resolver).reached work = some stage)
    (admitted : (stage.isFresh && state.request.cancelled) = false) :
    ∃ later after,
      (guard.selected access).1.poll (Guard.authorizing (guard.visit now access)) stage
          (guard.entered (Guard.authorizing (guard.visit now access)) stage state) = (later, after) ∧
        ((∃ decision, later = .settled decision ∧
          (resolve guard access resolver).poll now work state =
            (guard.conclude resolver (guard.visit now access) decision
              (Guard.left (Guard.authorizing (guard.visit now access)) later after)).map
                Work.ofResolution id) ∨
        later.decision? = none ∧
          (resolve guard access resolver).poll now work state =
            (.resolution (.authorizing later), after)) := by
  obtain ⟨waiting, resolution⟩ := resolution_of_reached work guard access resolver stage reached
  rcases polled : (guard.selected access).1.poll (Guard.authorizing (guard.visit now access)) stage
      (guard.entered (Guard.authorizing (guard.visit now access)) stage state) with ⟨later, after⟩
  have checked : guard.pollCheck (Guard.authorizing (guard.visit now access)) stage state =
      (later, Guard.left (Guard.authorizing (guard.visit now access)) later after) := by
    rw [Guard.pollCheck_eq]
    exact congrArg (fun polled => (polled.1, Guard.left _ polled.1 polled.2)) polled
  refine ⟨later, after, rfl, ?_⟩
  rw [poll_resolve now work state guard access resolver waiting]
  simp only [resolution]
  rcases later.settled_or_waiting with ⟨decision, decided⟩ | unsettled
  · refine Or.inl ⟨decision, decided, ?_⟩
    rw [guard.pollResolve_decided resolver _ stage state admitted decision (by rw [checked, decided]),
      checked]
    rfl
  · refine Or.inr ⟨unsettled, ?_⟩
    rw [guard.pollResolve_waiting resolver _ stage state admitted (by rw [checked, unsettled]), checked,
      Guard.left_waiting _ _ _ unsettled]
    rfl

theorem probes_admitted (guard : Guard) (access : FieldAccess) (resolver : Resolver) (stage : Stage)
    (reached : (resolve guard access resolver).reached work = some stage)
    (admitted : (stage.isFresh && state.request.cancelled) = false) :
    (resolve guard access resolver).probes now work state =
      (guard.selected access).1.probes (Guard.authorizing (guard.visit now access)) stage
        (guard.entered (Guard.authorizing (guard.visit now access)) stage state) := by
  simp only [probes, reached, isRefused, admitted, Bool.false_eq_true, if_false]
  rfl

theorem reached_ofResolution (guard : Guard) (access : FieldAccess) (resolver : Resolver)
    (resolution : Resolution) (settled : ∀ stage, resolution ≠ .authorizing stage) :
    (resolve guard access resolver).reached (.ofResolution resolution) = none := by
  cases resolution <;> first | rfl | exact absurd rfl (settled _)

theorem resolve_cases (guard : Guard) (access : FieldAccess) (resolver : Resolver) :
    ((resolve guard access resolver).probes now work state = [] ∧
        ((resolve guard access resolver).poll now work state).2 = state ∧
        (resolve guard access resolver).reached
          ((resolve guard access resolver).poll now work state).1 = none) ∨
      ∃ stage, (resolve guard access resolver).reached work = some stage ∧
        (stage.isFresh && state.request.cancelled) = false := by
  rcases work.done_or_waiting with ⟨answer, rfl⟩ | waiting
  · exact Or.inl ⟨rfl, rfl, rfl⟩
  rw [probes, reached_resolve work guard access resolver waiting,
    poll_resolve now work state guard access resolver waiting]
  cases work.resolution? with
  | resolving deadline =>
    -- the rule has decided, and the resolver is not interrupted
    refine Or.inl ⟨rfl, rfl, reached_ofResolution guard access resolver _ ?_⟩
    intro stage
    simp only [Guard.pollResolve, Resolver.await]
    split <;> simp
  | returned result => exact Or.inl ⟨rfl, rfl, rfl⟩
  | authorizing stage =>
    cases refused : (stage.isFresh && state.request.cancelled) with
    | true =>
      rw [guard.pollResolve_refused resolver _ stage state refused]
      exact Or.inl ⟨if_pos refused, rfl, rfl⟩
    | false => exact Or.inr ⟨stage, rfl, refused⟩

theorem poll_polled :
    call.Polled now work state (call.poll now work state).1 (call.poll now work state).2
      (call.probes now work state) := by
  rcases work.done_or_waiting with ⟨answer, rfl⟩ | waiting
  · have unasked : call.probes now (.done answer) state = [] := by simp [probes, reached_done]
    rw [unasked]
    cases call <;> exact .idle _ _ state.calm_refl (Or.inr rfl)
  cases call with
  | evaluate rule precedence access =>
    have reached := reached_evaluate work rule precedence access waiting
    rw [poll_evaluate now work state rule precedence access waiting]
    simp only [probes, reached]
    exact .asked work.stage _ _ reached (State.calm_refl _)
      (reached_ofStage (.evaluate rule precedence access) _ (by simp))
  | check guard access =>
    have reached := reached_check work guard access waiting
    rw [poll_check now work state guard access waiting, Guard.pollCheck_eq]
    simp only [probes, reached]
    exact .asked work.stage _ _ reached (Guard.left_calm _ _ _)
      (reached_ofStage (.check guard access) _ (by simp))
  | resolve guard access resolver =>
    rcases resolve_cases now work state guard access resolver with
      ⟨unasked, same, left⟩ | ⟨stage, reached, admitted⟩
    · rw [unasked, same]
      exact .idle _ _ state.calm_refl (Or.inl left)
    · obtain ⟨later, after, polled, poll⟩ :=
        poll_admitted now work state guard access resolver stage reached admitted
      have ruled : (resolve guard access resolver).rule.poll ((resolve guard access resolver).visit now)
          stage ((resolve guard access resolver).entered now stage state) = (later, after) := polled
      rw [probes_admitted now work state guard access resolver stage reached admitted]
      rcases poll with ⟨decision, rfl, concluded⟩ | ⟨unsettled, authorizing⟩
      -- a decision is followed by its conclusion, which asks nothing and does not go back
      · obtain ⟨calm, settled⟩ := guard.conclude_calm resolver (guard.visit now access)
          (Guard.left (Guard.authorizing (guard.visit now access)) (.settled decision) after) decision
        rw [concluded]
        refine .asked stage _ _ reached ?_ (Or.inl (reached_ofResolution _ _ _ _ settled))
        rw [ruled]
        exact (Guard.left_calm _ _ _).trans calm
      · rw [authorizing]
        refine .asked stage _ _ reached ?_ (Or.inr ⟨?_, ?_⟩)
        · rw [ruled]
          exact State.calm_refl _
        · rw [ruled]
          rfl
        · rw [ruled]
          exact unsettled

end Call

end FieldGuard
