import FieldGuard.Proofs.Calls

set_option autoImplicit false

namespace FieldGuard

structure State.Extends (before after : State) : Prop where
  id : after.request.id = before.request.id
  cancelled : before.request.cancelled = true → after.request.cancelled = true
  trace : ∃ records, after.trace = before.trace ++ records ∧
    ∀ record ∈ records, record.request = before.request.id

namespace State

theorem extends_refl (state : State) : state.Extends state :=
  ⟨rfl, fun same => same, [], (List.append_nil _).symm, by simp⟩

theorem Extends.trans {before middle after : State} (first : before.Extends middle)
    (second : middle.Extends after) : before.Extends after where
  id := second.id.trans first.id
  cancelled := fun cancelled => second.cancelled (first.cancelled cancelled)
  trace := by
    obtain ⟨records, same, own⟩ := first.trace
    obtain ⟨others, later, further⟩ := second.trace
    refine ⟨records ++ others, by rw [later, same, List.append_assoc], ?_⟩
    intro record member
    rcases List.mem_append.mp member with here | there
    · exact own record here
    · exact (further record there).trans first.id

variable (state : State) (visit : Visit)

theorem extends_recordAll (events : List Event) : state.Extends (state.recordAll visit events) :=
  ⟨rfl, fun same => same, _, rfl, by simp⟩

theorem extends_record (event : Event) : state.Extends (state.record visit event) :=
  ⟨rfl, fun same => same, _, rfl, by simp⟩

theorem Extends.withMemo {before after : State} (extension : before.Extends after)
    (memo : Memo) :
    before.Extends (after.withMemo memo) :=
  ⟨extension.id, extension.cancelled, extension.trace⟩

end State

namespace Question

variable (question : Question) (id : RuleId) (visit : Visit) (state : State)

theorem launch_extends (key : Option Key) :
    state.Extends (question.launch id key visit state).2 := by
  rcases question.launch_eq id visit key state with
    ⟨allowed, predicate, launched⟩ | ⟨invoke, invocation, evidence, predicate, started, rfl, launched⟩
  · rw [launched]
    exact state.extends_refl
  · rw [launched]
    exact (state.extends_record visit _).trans (State.extends_recordAll _ visit _)

theorem pollShared_extends (key : Key) :
    state.Extends (question.pollShared id visit key state).2 := by
  unfold pollShared
  split
  · exact (state.extends_recordAll visit _).withMemo _
  · exact state.extends_refl

theorem begin_extends : state.Extends (question.begin id visit state).2 := by
  unfold begin
  split
  · unfold join
    simp only
    split
    -- a hit joins the flight that is there, a miss launches one
    · exact ((state.extends_record visit _).withMemo _).trans (question.pollShared_extends id visit _ _)
    · exact ((state.extends_record visit _).trans (question.launch_extends id visit _ _)).withMemo _
  · exact question.launch_extends id visit state none

theorem poll_extends (stage : Stage) : state.Extends (question.poll id visit stage state).2 := by
  unfold poll
  split
  · exact state.extends_refl
  · cases stage with
    | shared key => exact question.pollShared_extends id visit state key
    | own flight => exact state.extends_recordAll visit _
    | settled decision => exact state.extends_refl
    | fresh => exact question.begin_extends id visit state
    | group operands first => exact question.begin_extends id visit state

end Question

theorem Rule.poll_extends (visit : Visit) (rule : Rule) (stage : Stage) (state : State) :
    state.Extends (rule.poll visit stage state).2 :=
  (rule.poll_keeps visit state.Extends (fun _ _ _ => True)
    (fun probe _ _ before _ =>
      ⟨before.trans (probe.question.poll_extends probe.id probe.visit probe.state probe.stage), trivial⟩)
    stage state state.extends_refl (fun _ _ => trivial)).1

namespace Guard

variable (guard : Guard) (resolver : Resolver) (visit : Visit) (state : State)

theorem entered_extends (stage : Stage) : state.Extends (guard.entered visit stage state) := by
  unfold entered
  split
  · exact state.extends_record visit _
  · exact state.extends_refl

theorem left_extends (stage : Stage) : state.Extends (left visit stage state) := by
  unfold left
  split
  · exact state.extends_record visit _
  · exact state.extends_refl

theorem refuse_extends (denial : Denial) : state.Extends (guard.refuse denial state).2 := by
  unfold refuse
  split
  · exact state.extends_refl
  · exact ⟨rfl, fun _ => rfl, state.extends_refl.trace⟩

theorem conclude_extends (decision : Decision) :
    state.Extends (guard.conclude resolver visit decision state).2 := by
  unfold conclude
  split
  · exact state.extends_record visit _
  · exact (state.extends_record visit _).trans (guard.refuse_extends _ _)
  · exact state.extends_refl
  · exact (state.extends_record visit _).trans (guard.refuse_extends _ _)

end Guard

theorem Call.poll_extends (now : Nat) (call : Call) (work : Work) (state : State) :
    state.Extends (call.poll now work state).2 := by
  rcases work.done_or_waiting with ⟨answer, rfl⟩ | waiting
  · cases call <;> exact state.extends_refl
  cases call with
  | evaluate rule precedence access =>
    rw [poll_evaluate now work state rule precedence access waiting]
    exact rule.poll_extends _ _ state
  | check guard access =>
    rw [poll_check now work state guard access waiting, Guard.pollCheck_eq]
    exact ((guard.entered_extends _ state _).trans (Rule.poll_extends _ _ _ _)).trans
      (Guard.left_extends _ _ _)
  | resolve guard access resolver =>
    rcases resolve_cases now work state guard access resolver with
      ⟨_, same, _⟩ | ⟨stage, reached, admitted⟩
    · rw [same]
      exact state.extends_refl
    · have entered :=
        guard.entered_extends (Guard.authorizing (guard.visit now access)) state stage
      have extension := entered.trans ((guard.selected access).1.poll_extends
        (Guard.authorizing (guard.visit now access)) stage _)
      obtain ⟨later, after, polled, poll⟩ :=
        poll_admitted now work state guard access resolver stage reached admitted
      rw [polled] at extension
      rcases poll with ⟨decision, rfl, concluded⟩ | ⟨_, authorizing⟩
      · rw [concluded]
        exact (extension.trans (Guard.left_extends _ _ _)).trans
          (guard.conclude_extends resolver _ _ decision)
      · rw [authorizing]
        exact extension

end FieldGuard
