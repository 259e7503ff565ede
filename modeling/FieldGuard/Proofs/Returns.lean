import FieldGuard.Proofs.Answers
import FieldGuard.Proofs.Flights
import FieldGuard.Proofs.Traffic

set_option autoImplicit false

namespace FieldGuard

def Work.progress : Work → Option Stage
  | .done (.decision decision) => some (.settled decision)
  | .done _ => none
  | work => some work.stage

theorem Work.progress_ofStage (stage : Stage) : (Work.ofStage stage).progress = some stage := by
  cases stage <;> rfl

theorem Work.progress_waiting (work : Work) (waiting : ∀ answer, work ≠ .done answer) :
    work.progress = some work.stage := by
  cases work <;> first | rfl | exact absurd rfl (waiting _)

namespace Call

def Decides (call : Call) : Prop := ∀ guard access resolver, call ≠ .resolve guard access resolver

def precedence : Call → Precedence
  | .evaluate _ precedence _ => precedence
  | .check guard _ | .resolve guard _ _ => guard.options.precedence

variable (now : Nat) (call : Call) (work : Work) (state : State)

theorem visit_precedence : (call.visit now).precedence = call.precedence := by
  cases call <;> rfl

theorem poll_done (answer : Answer) : call.poll now (.done answer) state = (.done answer, state) := by
  cases call <;> rfl

theorem reached_decides (decides : call.Decides) (waiting : ∀ answer, work ≠ .done answer) :
    call.reached work = some work.stage := by
  cases call with
  | resolve guard access resolver => exact absurd rfl (decides guard access resolver)
  | evaluate rule precedence access => exact reached_evaluate work rule precedence access waiting
  | check guard access => exact reached_check work guard access waiting

theorem poll_decides (decides : call.Decides) (waiting : ∀ answer, work ≠ .done answer) :
    (call.poll now work state).1 = .ofStage
        (call.rule.poll (call.visit now) work.stage (call.entered now work.stage state)).1 ∧
      call.probes now work state =
        call.rule.probes (call.visit now) work.stage (call.entered now work.stage state) := by
  cases call with
  | resolve guard access resolver => exact absurd rfl (decides guard access resolver)
  | evaluate rule precedence access =>
    rw [poll_evaluate now work state rule precedence access waiting]
    simp only [probes, reached_evaluate work rule precedence access waiting]
    exact ⟨rfl, rfl⟩
  | check guard access =>
    rw [poll_check now work state guard access waiting, Guard.pollCheck_eq]
    simp only [probes, reached_check work guard access waiting]
    exact ⟨rfl, rfl⟩

theorem poll_cancelled_eq (decides : call.Decides) :
    (call.poll now work state).2.request.cancelled = state.request.cancelled := by
  rcases work.done_or_waiting with ⟨answer, rfl⟩ | waiting
  · rw [poll_done]
  cases call with
  | resolve guard access resolver => exact absurd rfl (decides guard access resolver)
  | evaluate rule precedence access =>
    rw [poll_evaluate now work state rule precedence access waiting]
    exact rule.poll_cancelled_eq _ _ _
  | check guard access =>
    rw [poll_check now work state guard access waiting, Guard.pollCheck_eq]
    simp only [Guard.left_request, Rule.poll_cancelled_eq, Guard.entered_request]

end Call

namespace Traffic

variable (calls : Nat → Call) (caller : Nat) (reply : RuleId → Decision → Prop)

def Heard (asked : List (Nat × Probe)) : Prop :=
  ∀ pair ∈ asked, pair.1 = caller →
    ∀ decision, pair.2.reply = .settled decision → reply pair.2.id decision

def Sounds (traffic : Traffic) : Prop :=
  ∀ stage, (traffic.works caller).progress = some stage →
    (calls caller).rule.Sound reply (calls caller).precedence stage

variable {calls caller reply}

theorem step_sounds (decides : (calls caller).Decides) (traffic : Traffic) (move : Move)
    (sounds : Sounds calls caller reply traffic)
    (heard : Heard caller reply (asked calls traffic move)) :
    Sounds calls caller reply (step calls traffic move) := by
  cases move with
  | cancel => exact sounds
  | elsewhere records => exact sounds
  | drop other =>
    intro stage reached
    by_cases same : caller = other
    · subst same
      cases work : traffic.works caller with
      | done answer => exact sounds stage (by simpa [step, work, dropped] using reached)
      | _ => simp [step, work, dropped, Work.progress] at reached
    · exact sounds stage (by simpa [step, same] using reached)
  | poll other now =>
    intro stage reached
    by_cases same : caller = other
    -- a call that is done asks nothing; any other is one poll of its rule
    · subst same
      rcases (traffic.works caller).done_or_waiting with ⟨answer, done⟩ | waiting
      · exact sounds stage (by simpa [step, done, Call.poll_done] using reached)
      · obtain ⟨polled, probes⟩ := (calls caller).poll_decides now _ traffic.state decides waiting
        have before := sounds _ ((traffic.works caller).progress_waiting waiting)
        simp only [step, Function.update_self, polled, Work.progress_ofStage,
          Option.some.injEq] at reached
        subst reached
        apply Rule.poll_sound _ ((calls caller).visit_precedence now) _ _ _ before
        intro probe member
        exact heard (caller, probe) (by simpa [asked, probes] using member) rfl
    · exact sounds stage (by simpa [step, same] using reached)

theorem run_sounds (decides : (calls caller).Decides) (traffic : Traffic) (moves : List Move)
    (sounds : Sounds calls caller reply traffic)
    (heard : Heard caller reply (probes calls traffic moves)) :
    Sounds calls caller reply (run calls traffic moves) := by
  induction moves generalizing traffic with
  | nil => exact sounds
  | cons move rest ih =>
    apply ih (step calls traffic move)
    · exact step_sounds decides traffic move sounds
        (fun pair member => heard pair (List.mem_append_left _ member))
    · exact fun pair member => heard pair (List.mem_append_right _ member)

theorem opened_sounds (id : RequestId) (context : Json) (history : Trace) :
    Sounds calls caller reply (opened id context history) := by
  intro stage reached
  cases reached
  exact Rule.sound_fresh _ _ _

/-- Whatever else happens to the request, a call returns a decision to which the answers lead that
its leaves gave it. -/
theorem returned_yields (reply : RuleId → Decision → Prop) (decides : (calls caller).Decides)
    (id : RequestId) (context : Json) (history : Trace) (moves : List Move)
    (heard : Heard caller reply (probes calls (opened id context history) moves))
    (decision : Decision)
    (returned : (run calls (opened id context history) moves).works caller =
      .done (.decision decision)) :
    (calls caller).rule.Yields reply (calls caller).precedence decision := by
  have sounds := run_sounds decides _ moves (opened_sounds id context history) heard
  have sound := sounds (.settled decision) (by rw [returned]; rfl)
  exact (Rule.sound_settled _ _ _ _).mp sound

theorem flights_invariant (questions : RuleId → Question)
    (named : ∀ caller, (calls caller).rule.Named questions) (request : RequestId) :
    Invariant calls
      (fun state => state.request.id = request ∧ Question.AllLead questions state.request.memo)
      (fun access id question stage => question = questions id ∧
        question.Stands id request access stage ∧
        ∀ flight, stage = .own flight → question.Leads flight) where
  calm := fun before after calm holds =>
    ⟨calm.id.trans holds.1, fun key flight found => holds.2 key flight (calm.memo key ▸ found)⟩
  fresh := fun caller leaf member =>
    ⟨named caller leaf member, trivial, fun _ same => (by cases same)⟩
  asked := by
    intro probe asked
    have polled := probe.polled_of_waiting asked.waiting
    obtain ⟨waiting, ⟨rfl, all⟩, same, stands, own⟩ := asked
    have led := polled.led same stands own all
    exact ⟨⟨polled.keeps.id, led.memo⟩, same, polled.stands stands, led.own⟩

theorem asked_running (traffic : Traffic) (moves : List Move)
    (running : (run calls traffic moves).state.request.cancelled = false) (pair : Nat × Probe)
    (member : pair ∈ probes calls traffic moves) : pair.2.state.request.cancelled = false := by
  have each (probe : Probe) (waiting : probe.stage.decision? = none) :
      probe.after.request.cancelled = probe.state.request.cancelled :=
    (probe.polled_of_waiting waiting).keeps.cancelled
  have lasting (before after : State) (calm : before.Calm after)
      (cancelled : before.request.cancelled = true) : after.request.cancelled = true :=
    calm.cancelled cancelled
  -- a cancellation lasts, so a request that is live at the end was live at every leaf
  cases cancelled : pair.2.state.request.cancelled with
  | false => rfl
  | true =>
    have waiting : pair.2.stage.decision? = none := by
      have trivially : Invariant calls (fun _ => True) (fun _ _ _ _ => True) :=
        invariant_of_state _ (fun _ _ _ _ => trivial) (fun _ _ _ => trivial)
      exact ((Sound.run trivially ⟨trivial, fun _ _ _ _ _ => trivial⟩ moves).2 pair member).waiting
    have final := run_lasts _ lasting (fun probe waiting cancelled => (each probe waiting).trans cancelled)
      traffic moves pair member ((each pair.2 waiting).trans cancelled)
    rw [running] at final
    cases final

theorem Asked.mayEnd {questions : RuleId → Question} {request : RequestId} {probe : Probe}
    (asked : Asked
      (fun state => state.request.id = request ∧ Question.AllLead questions state.request.memo)
      (fun access id question stage => question = questions id ∧
        question.Stands id request access stage ∧
        ∀ flight, stage = .own flight → question.Leads flight) probe)
    (running : probe.state.request.cancelled = false) (decision : Decision)
    (reply : probe.reply = .settled decision) : (questions probe.id).MayEnd decision := by
  have polled := probe.polled_of_waiting asked.waiting
  obtain ⟨waiting, ⟨rfl, all⟩, named, stands, own⟩ := asked
  rw [← named]
  exact (polled.led named stands own all).settled running decision reply

theorem reply_mayEnd (questions : RuleId → Question)
    (named : ∀ caller, (calls caller).rule.Named questions) (id : RequestId) (context : Json)
    (history : Trace) (moves : List Move)
    (running : (run calls (opened id context history) moves).state.request.cancelled = false)
    (pair : Nat × Probe) (member : pair ∈ probes calls (opened id context history) moves)
    (decision : Decision) (reply : pair.2.reply = .settled decision) :
    (questions pair.2.id).MayEnd decision := by
  have invariant := flights_invariant questions named id
  have opened : Question.AllLead questions (Memo.empty) := fun _ _ found => (by cases found)
  have asked := ((invariant.opened id context history ⟨rfl, opened⟩).run invariant moves).2 pair member
  exact asked.mayEnd (asked_running _ moves running pair member) decision reply

variable (calls) in
/-- What may have become of a request that has never been cancelled. -/
def Live (traffic : Traffic) : Prop :=
  ∃ id context history moves, traffic = run calls (opened id context history) moves ∧
    traffic.state.request.cancelled = false

theorem Live.yields {traffic : Traffic} (live : Live calls traffic)
    (decides : (calls caller).Decides) (questions : RuleId → Question)
    (named : ∀ other, (calls other).rule.Named questions) (decision : Decision)
    (returned : traffic.works caller = .done (.decision decision)) :
    (calls caller).rule.Yields (fun leaf answer => (questions leaf).MayEnd answer)
      (calls caller).precedence decision := by
  obtain ⟨id, context, history, moves, rfl, running⟩ := live
  exact returned_yields _ decides id context history moves
    (fun pair member _ => reply_mayEnd questions named id context history moves running pair member)
    decision returned

theorem Live.poll {traffic : Traffic} (live : Live calls traffic) (decides : (calls caller).Decides)
    (now : Nat) : Live calls (step calls traffic (.poll caller now)) := by
  obtain ⟨id, context, history, moves, rfl, running⟩ := live
  refine ⟨id, context, history, moves ++ [.poll caller now], by rw [run_append]; rfl, ?_⟩
  exact (Call.poll_cancelled_eq _ _ _ _ decides).trans running

theorem poll_returns (decides : (calls caller).Decides) (traffic : Traffic) (now : Nat)
    (waiting : ∀ answer, traffic.works caller ≠ .done answer)
    (settled : ∀ pair ∈ asked calls traffic (.poll caller now),
      ∃ decision, pair.2.reply = .settled decision) :
    ∃ decision,
      (step calls traffic (.poll caller now)).works caller = .done (.decision decision) := by
  obtain ⟨polled, probes⟩ := (calls caller).poll_decides now _ traffic.state decides waiting
  obtain ⟨decision, same⟩ := Rule.poll_settles ((calls caller).visit now) (calls caller).rule
    (traffic.works caller).stage _
    (fun probe member => settled (caller, probe) (by simpa [asked, probes] using member))
  exact ⟨decision, by simp only [step, Function.update_self, polled, same]; rfl⟩

variable (calls) in
theorem run_done (traffic : Traffic) (moves : List Move) (caller : Nat) (answer : Answer)
    (done : traffic.works caller = .done answer) :
    (run calls traffic moves).works caller = .done answer := by
  induction moves generalizing traffic with
  | nil => exact done
  | cons move rest ih =>
    apply ih (step calls traffic move)
    cases move with
    | cancel => exact done
    | elsewhere records => exact done
    | drop other =>
      by_cases same : caller = other
      · subst same
        simp [step, done, dropped]
      · simpa [step, same] using done
    | poll other now =>
      by_cases same : caller = other
      · subst same
        simp [step, done, Call.poll_done]
      · simpa [step, same] using done

theorem run_polled (Holds : Traffic → Prop) (Fits : Move → Prop) (Gives : Answer → Prop)
    (keeps : ∀ traffic move, Holds traffic → Fits move → (∀ now, move ≠ .poll caller now) →
      Holds (step calls traffic move))
    (returns : ∀ traffic now, Holds traffic → ∃ answer, Gives answer ∧
      (step calls traffic (.poll caller now)).works caller = .done answer)
    (traffic : Traffic) (holds : Holds traffic) (moves : List Move)
    (fits : ∀ move ∈ moves, Fits move) (now : Nat) (polled : .poll caller now ∈ moves) :
    ∃ answer, Gives answer ∧ (run calls traffic moves).works caller = .done answer := by
  -- what a poll relies on has to last until the first poll only, and the answer stays
  induction moves generalizing traffic with
  | nil => cases polled
  | cons move rest ih =>
    by_cases own : ∃ now, move = .poll caller now
    · obtain ⟨now, rfl⟩ := own
      obtain ⟨answer, gives, done⟩ := returns traffic now holds
      exact ⟨answer, gives, run_done calls _ rest caller answer done⟩
    · have later : .poll caller now ∈ rest := by
        rcases List.mem_cons.mp polled with rfl | inside
        · exact absurd ⟨now, rfl⟩ own
        · exact inside
      have kept := keeps traffic move holds (fits move List.mem_cons_self) (by simpa using own)
      exact ih _ kept (fun other member => fits other (List.mem_cons_of_mem _ member)) later

end Traffic

end FieldGuard
