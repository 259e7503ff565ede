import FieldGuard.Proofs.Calls
import Mathlib.Logic.Function.Basic

/-!
One request and all calls that are made on it. The calls are polled in any order and may be dropped
at any time; the request may be cancelled, and other requests leave records in the same trace.
-/

set_option autoImplicit false

namespace FieldGuard

structure Traffic where
  state : State
  works : Nat → Work

inductive Move where
  | poll (caller now : Nat)
  | drop (caller : Nat)
  | cancel
  | elsewhere (records : Trace)

namespace Traffic

/-- A request after other requests, on which no call has begun. -/
def opened (id : RequestId) (context : Json) (history : Trace) : Traffic :=
  { state := ⟨Request.start id context, history.filter fun record => record.request != id⟩
    works := fun _ => .fresh }

def dropped : Work → Work
  | .done answer => .done answer
  | _ => .done .timedOut

def cancelled (state : State) : State :=
  { state with request := { state.request with cancelled := true } }

def joinedBy (records : Trace) (state : State) : State :=
  { state with
    trace := state.trace ++ records.filter fun record => record.request != state.request.id }

variable (calls : Nat → Call)

def step (traffic : Traffic) : Move → Traffic
  | .poll caller now =>
      let (work, state) := (calls caller).poll now (traffic.works caller) traffic.state
      { state, works := Function.update traffic.works caller work }
  | .drop caller =>
      { traffic with
        works := Function.update traffic.works caller (dropped (traffic.works caller)) }
  | .cancel => { traffic with state := cancelled traffic.state }
  | .elsewhere records => { traffic with state := joinedBy records traffic.state }

def run (traffic : Traffic) (moves : List Move) : Traffic := moves.foldl (step calls) traffic

def asked (traffic : Traffic) : Move → List (Nat × Probe)
  | .poll caller now =>
      ((calls caller).probes now (traffic.works caller) traffic.state).map (caller, ·)
  | _ => []

/-- The leaves that a run asks, in order. -/
def probes : Traffic → List Move → List (Nat × Probe)
  | _, [] => []
  | traffic, move :: rest => asked calls traffic move ++ probes (step calls traffic move) rest

theorem run_append (traffic : Traffic) (moves rest : List Move) :
    run calls traffic (moves ++ rest) = run calls (run calls traffic moves) rest :=
  List.foldl_append

theorem probes_append (traffic : Traffic) (moves rest : List Move) :
    probes calls traffic (moves ++ rest) =
      probes calls traffic moves ++ probes calls (run calls traffic moves) rest := by
  induction moves generalizing traffic with
  | nil => rfl
  | cons move others ih => simp [probes, ih, run]

structure Asked (Holds : State → Prop) (Fits : FieldAccess → RuleId → Question → Stage → Prop)
    (probe : Probe) : Prop where
  waiting : probe.stage.decision? = none
  state : Holds probe.state
  stage : Fits probe.visit.access probe.id probe.question probe.stage

/-- A property of the state and one of the stages of leaves, which whatever happens to a request
keeps together. -/
structure Invariant (Holds : State → Prop)
    (Fits : FieldAccess → RuleId → Question → Stage → Prop) : Prop where
  calm : ∀ before after, State.Calm before after → Holds before → Holds after
  fresh : ∀ caller, ∀ leaf ∈ (calls caller).rule.leaves,
    Fits (calls caller).access leaf.1 leaf.2 .fresh
  asked : ∀ probe : Probe, Asked Holds Fits probe →
    Holds probe.after ∧ Fits probe.visit.access probe.id probe.question probe.reply

structure Sound (Holds : State → Prop) (Fits : FieldAccess → RuleId → Question → Stage → Prop)
    (traffic : Traffic) : Prop where
  state : Holds traffic.state
  stages : ∀ caller stage, (calls caller).reached (traffic.works caller) = some stage →
    ∀ entry ∈ (calls caller).rule.awaited stage,
      Fits (calls caller).access entry.1 entry.2.1 entry.2.2

section

variable {calls} {Holds : State → Prop} {Fits : FieldAccess → RuleId → Question → Stage → Prop}

variable (calls) in
theorem fresh_of_opened (id : RequestId) (context : Json) (history : Trace) (caller : Nat)
    (stage : Stage)
    (reached : (calls caller).reached ((opened id context history).works caller) = some stage) :
    stage = .fresh := by
  cases call : calls caller <;>
    simp_all [opened, Call.reached, Work.stage, Work.resolution?]

theorem reached_dropped (call : Call) (work : Work) : call.reached (dropped work) = none := by
  cases work <;> exact call.reached_done _

theorem Invariant.opened (invariant : Invariant calls Holds Fits) (id : RequestId) (context : Json)
    (history : Trace) (holds : Holds (opened id context history).state) :
    Sound calls Holds Fits (Traffic.opened id context history) where
  state := holds
  stages := by
    intro caller stage reached entry member
    have fresh := fresh_of_opened calls id context history caller stage reached
    subst fresh
    obtain ⟨leaf, same⟩ := Rule.mem_awaited_fresh _ entry member
    rw [same]
    exact invariant.fresh caller _ leaf

theorem Sound.calm (invariant : Invariant calls Holds Fits) {traffic : Traffic}
    (sound : Sound calls Holds Fits traffic) (after : State) (calm : traffic.state.Calm after) :
    Sound calls Holds Fits { traffic with state := after } :=
  ⟨invariant.calm _ _ calm sound.state, sound.stages⟩

theorem Sound.update {traffic : Traffic} (sound : Sound calls Holds Fits traffic) (caller : Nat)
    (work : Work) (after : State) (holds : Holds after)
    (fits : ∀ stage, (calls caller).reached work = some stage →
      ∀ entry ∈ (calls caller).rule.awaited stage,
        Fits (calls caller).access entry.1 entry.2.1 entry.2.2) :
    Sound calls Holds Fits ⟨after, Function.update traffic.works caller work⟩ where
  state := holds
  stages := by
    intro other stage reached
    -- only the caller that was polled has come on
    by_cases same : other = caller
    · subst same
      exact fits stage (by simpa using reached)
    · exact sound.stages other stage (by simpa [same] using reached)

theorem Sound.poll (invariant : Invariant calls Holds Fits) {traffic : Traffic}
    (sound : Sound calls Holds Fits traffic) (caller now : Nat) :
    Sound calls Holds Fits (step calls traffic (.poll caller now)) ∧
      ∀ pair ∈ Traffic.asked calls traffic (.poll caller now),
        Asked Holds Fits pair.2 := by
  have polled := (calls caller).poll_polled now (traffic.works caller) traffic.state
  simp only [step, Traffic.asked]
  generalize (calls caller).poll now (traffic.works caller) traffic.state = result at polled
  generalize (calls caller).probes now (traffic.works caller) traffic.state = probes at polled
  obtain ⟨work, after⟩ := result
  cases polled with
  | idle later after calm left =>
    refine ⟨sound.update caller work after (invariant.calm _ _ calm sound.state) ?_, by simp⟩
    intro stage reached
    rcases left with done | same
    · simp [done] at reached
    · exact sound.stages caller stage (same ▸ reached)
  | asked stage later after reached leave left =>
    have access := (calls caller).visit_access now
    have each : ∀ probe : Probe, probe.visit = (calls caller).visit now →
        probe.stage.decision? = none → Holds probe.state →
        Fits (calls caller).access probe.id probe.question probe.stage →
          Holds probe.after ∧ Fits (calls caller).access probe.id probe.question probe.reply := by
      intro probe same waiting holds fits
      have own : probe.visit.access = (calls caller).access := by rw [same, access]
      rw [← own] at fits ⊢
      exact invariant.asked probe ⟨waiting, holds, fits⟩
    have entered := (calls caller).calm_entered now traffic.state stage
    -- entering writes one record, the poll of the rule asks leaves, and leaving writes one record more
    obtain ⟨held, awaited, asked⟩ := Rule.poll_keeps ((calls caller).visit now) Holds
      (Fits (calls caller).access) each (calls caller).rule stage _
      (invariant.calm _ _ entered sound.state) (sound.stages caller stage reached)
    constructor
    · apply sound.update caller work after (invariant.calm _ _ leave held)
      intro later same
      rcases left with done | ⟨onward, _⟩
      · simp [done] at same
      · rw [onward] at same
        cases same
        exact awaited
    · intro pair member
      obtain ⟨probe, found, rfl⟩ := List.mem_map.mp member
      have own : probe.visit = (calls caller).visit now := (Rule.mem_probes _ _ _ _ probe found).1
      obtain ⟨holds, waiting, fits⟩ := asked probe found
      rw [← access, ← own] at fits
      exact ⟨waiting, holds, fits⟩

theorem Sound.step (invariant : Invariant calls Holds Fits) {traffic : Traffic}
    (sound : Sound calls Holds Fits traffic) (move : Move) :
    Sound calls Holds Fits (Traffic.step calls traffic move) ∧
      ∀ pair ∈ Traffic.asked calls traffic move,
        Asked Holds Fits pair.2 := by
  cases move with
  | poll caller now => exact sound.poll invariant caller now
  | drop caller =>
    refine ⟨sound.update caller _ _ sound.state ?_, by simp [Traffic.asked]⟩
    intro stage reached
    simp [reached_dropped] at reached
  | cancel =>
    exact ⟨sound.calm invariant _ (State.calm_cancel _), by simp [Traffic.asked]⟩
  | elsewhere records =>
    refine ⟨sound.calm invariant _ (State.calm_elsewhere _ _ ?_), by simp [Traffic.asked]⟩
    intro record member
    simpa using (List.mem_filter.mp member).2

theorem Sound.run (invariant : Invariant calls Holds Fits) {traffic : Traffic}
    (sound : Sound calls Holds Fits traffic) (moves : List Move) :
    Sound calls Holds Fits (Traffic.run calls traffic moves) ∧
      ∀ pair ∈ Traffic.probes calls traffic moves,
        Asked Holds Fits pair.2 := by
  induction moves generalizing traffic with
  | nil => exact ⟨sound, by simp [Traffic.probes]⟩
  | cons move rest ih =>
    obtain ⟨after, first⟩ := sound.step invariant move
    obtain ⟨final, others⟩ := ih after
    refine ⟨final, ?_⟩
    intro pair member
    rcases List.mem_append.mp member with head | tail
    · exact first pair head
    · exact others pair tail

variable (Holds) (lasting : ∀ before after, State.Calm before after → Holds before → Holds after)
  (each : ∀ probe : Probe, probe.stage.decision? = none → Holds probe.state → Holds probe.after)

include lasting each

theorem invariant_of_state : Invariant calls Holds fun _ _ _ _ => True where
  calm := lasting
  fresh := fun _ _ _ => trivial
  asked := fun probe asked => ⟨each probe asked.waiting asked.state, trivial⟩

theorem run_preserves (traffic : Traffic) (moves : List Move) (holds : Holds traffic.state) :
    Holds (run calls traffic moves).state :=
  (Sound.run (invariant_of_state Holds lasting each) ⟨holds, fun _ _ _ _ _ => trivial⟩ moves).1.state

theorem step_lasts (traffic : Traffic) (move : Move) (pair : Nat × Probe)
    (member : pair ∈ asked calls traffic move) (holds : Holds pair.2.after) :
    Holds (step calls traffic move).state := by
  cases move with
  | poll caller now =>
    have polled := (calls caller).poll_polled now (traffic.works caller) traffic.state
    obtain ⟨probe, found, rfl⟩ := List.mem_map.mp member
    simp only [step]
    generalize (calls caller).poll now (traffic.works caller) traffic.state = result at polled
    generalize (calls caller).probes now (traffic.works caller) traffic.state = probes at polled found
    obtain ⟨work, after⟩ := result
    cases polled with
    | idle later after calm left => simp at found
    | asked stage later after reached leave left =>
      apply lasting _ _ leave
      exact (Rule.poll_linked _ _ _ _).lasts Holds
        (fun other inside => each other (Rule.probes_waiting _ _ _ _ other inside)) probe found holds
  | drop caller => simp [asked] at member
  | cancel => simp [asked] at member
  | elsewhere records => simp [asked] at member

theorem run_lasts (traffic : Traffic) (moves : List Move) (pair : Nat × Probe)
    (member : pair ∈ probes calls traffic moves) (holds : Holds pair.2.after) :
    Holds (run calls traffic moves).state := by
  induction moves generalizing traffic with
  | nil => simp [probes] at member
  | cons move rest ih =>
    -- the leaf was asked by the first move or by a later one
    rcases List.mem_append.mp member with head | tail
    · have stepped := step_lasts Holds lasting each traffic move pair head holds
      exact run_preserves Holds lasting each _ rest stepped
    · exact ih _ tail

end

theorem stands_invariant (request : RequestId) :
    Invariant calls (fun state => state.request.id = request)
      (fun access id question stage => question.Stands id request access stage) where
  calm := fun _ _ calm same => calm.id.trans same
  fresh := fun _ _ _ => trivial
  asked := by
    intro probe asked
    have polled := probe.polled_of_waiting asked.waiting
    obtain ⟨waiting, same, stands⟩ := asked
    subst same
    exact ⟨polled.keeps.id, polled.stands stands⟩

theorem step_works (caller : Nat) (traffic : Traffic) (move : Move) (undropped : move ≠ .drop caller)
    (unpolled : ∀ now, move ≠ .poll caller now) :
    (step calls traffic move).works caller = traffic.works caller := by
  cases move with
  | cancel => rfl
  | elsewhere records => rfl
  | drop other =>
    have differs : caller ≠ other := fun same => undropped (same ▸ rfl)
    simp [step, differs]
  | poll other now =>
    have differs : caller ≠ other := fun same => unpolled now (same ▸ rfl)
    simp [step, differs]

end Traffic

end FieldGuard
