import FieldGuard.Proofs.Records
import FieldGuard.Proofs.Traffic
import FieldGuard.Simulation.Schedule

set_option autoImplicit false

namespace FieldGuard

namespace Traffic

def Reaches (calls : Nat → Call) (traffic later : Traffic) : Prop :=
  ∃ moves, run calls traffic moves = later

variable {calls : Nat → Call}

theorem reaches_refl (traffic : Traffic) : Reaches calls traffic traffic := ⟨[], rfl⟩

theorem reaches_step (traffic : Traffic) (move : Move) :
    Reaches calls traffic (step calls traffic move) :=
  ⟨[move], rfl⟩

theorem Reaches.trans {traffic later final : Traffic} (first : Reaches calls traffic later)
    (second : Reaches calls later final) : Reaches calls traffic final := by
  obtain ⟨moves, rfl⟩ := first
  obtain ⟨others, rfl⟩ := second
  exact ⟨moves ++ others, run_append calls traffic moves others⟩

end Traffic

namespace World

variable (world : World) (name : String) (entry : OpenRequest)

def view : State := ⟨world.current entry, world.trace⟩

def keep (state : State) : World :=
  let fired := if state.request.cancelled then world.fire entry.token else world
  { fired with
    requests := fired.requests.map fun other =>
      if other.1 = name then (name, ⟨entry.token, state.request⟩) else other
    trace := state.trace }

theorem withState_eq {α : Type} (act : State → α × State) :
    world.withState name entry act =
      ((act (world.view entry)).1, world.keep name entry (act (world.view entry)).2) :=
  rfl

theorem isFired_fire (token other : Token) :
    (world.fire token).isFired other = (decide (other = token) || world.isFired other) := by
  unfold fire
  split
  · next fired =>
    by_cases same : other = token
    · simp [same, fired]
    · simp [same]
  · simp [isFired]

theorem find?_fire (token : Token) : (world.fire token).find? name = world.find? name := by
  unfold fire
  split <;> rfl

theorem fire_frame (token : Token) :
    (world.fire token).guard = world.guard ∧ (world.fire token).opened = world.opened ∧
      (world.fire token).trace = world.trace := by
  unfold fire
  split <;> exact ⟨rfl, rfl, rfl⟩

theorem isFired_keep (state : State) (token : Token) :
    (world.keep name entry state).isFired token =
      ((state.request.cancelled && decide (token = entry.token)) || world.isFired token) := by
  cases cancelled : state.request.cancelled with
  | true => simpa [keep, cancelled, isFired] using world.isFired_fire entry.token token
  | false => simp [keep, cancelled, isFired]

theorem find?_keep (state : State) (found : world.find? name = some entry) (other : String) :
    (world.keep name entry state).find? other =
      if other = name then some ⟨entry.token, state.request⟩ else world.find? other := by
  have kept : (world.keep name entry state).requests =
      world.requests.map fun other =>
        if other.1 = name then (name, ⟨entry.token, state.request⟩) else other := by
    cases cancelled : state.request.cancelled with
    | false => simp [keep, cancelled]
    | true =>
      simp only [keep, cancelled, if_true, fire]
      split <;> rfl
  unfold find? at found ⊢
  rw [kept, lookup_replaced, found]
  rfl

theorem keep_frame (state : State) :
    (world.keep name entry state).guard = world.guard ∧
      (world.keep name entry state).opened = world.opened ∧
      (world.keep name entry state).trace = state.trace := by
  cases cancelled : state.request.cancelled with
  | false => simp [keep, cancelled]
  | true => simp [keep, cancelled, world.fire_frame]

structure Ordered : Prop where
  distinct : ∀ name other entry twin, world.find? name = some entry →
    world.find? other = some twin → entry.request.id = twin.request.id → name = other
  numbered : ∀ name entry, world.find? name = some entry → entry.request.id ≤ world.opened
  past : ∀ record ∈ world.trace, record.request ≤ world.opened

end World

abbrev Works := String → Nat → Work

def Works.put (works : Works) (name : String) (caller : Nat) (work : Work) : Works :=
  Function.update works name (Function.update (works name) caller work)

theorem Works.put_apply (works : Works) (name other : String) (caller one : Nat) (work : Work) :
    works.put name caller work other one =
      if other = name ∧ one = caller then work else works other one := by
  by_cases named : other = name
  · subst named
    by_cases same : one = caller <;> simp [put, same]
  · simp [put, named]

theorem Works.put_self (works : Works) (name : String) (caller : Nat) :
    works.put name caller (works name caller) = works := by
  simp [put]

theorem Works.put_put (works : Works) (name : String) (caller : Nat) (work later : Work) :
    (works.put name caller work).put name caller later = works.put name caller later := by
  simp [put]

namespace World

/-- One world comes after another in which the same requests are open, and each of them has seen
traffic in between. -/
structure Follows (calls : Nat → Call) (before : World) (works : Works) (after : World)
    (later : Works) : Prop where
  guard : after.guard = before.guard
  opened : after.opened = before.opened
  ordered : after.Ordered
  absent : ∀ name, before.find? name = none → after.find? name = none
  present : ∀ name entry, before.find? name = some entry → ∃ kept, after.find? name = some kept ∧
    kept.token = entry.token ∧ kept.request.id = entry.request.id ∧
      Traffic.Reaches calls ⟨before.view entry, works name⟩ ⟨after.view kept, later name⟩

variable {calls : Nat → Call} {world : World} {works : Works}

theorem follows_refl (ordered : world.Ordered) : Follows calls world works world works where
  guard := rfl
  opened := rfl
  ordered := ordered
  absent := fun _ missing => missing
  present := fun _ entry found => ⟨entry, found, rfl, rfl, Traffic.reaches_refl _⟩

theorem Follows.trans {middle after : World} {later final : Works}
    (first : Follows calls world works middle later) (second : Follows calls middle later after final) :
    Follows calls world works after final where
  guard := second.guard.trans first.guard
  opened := second.opened.trans first.opened
  ordered := second.ordered
  absent := fun name missing => second.absent name (first.absent name missing)
  present := by
    intro name entry found
    obtain ⟨between, known, token, id, reaches⟩ := first.present name entry found
    obtain ⟨kept, known, other, same, onward⟩ := second.present name between known
    exact ⟨kept, known, other.trans token, same.trans id, reaches.trans onward⟩

theorem Ordered.after (ordered : world.Ordered) {after : World} (opened : after.opened = world.opened)
    (open' : ∀ name kept, after.find? name = some kept →
      ∃ entry, world.find? name = some entry ∧ kept.request.id = entry.request.id)
    (past : ∀ record ∈ after.trace, record.request ≤ world.opened) : after.Ordered where
  distinct := by
    intro name other kept twin found known same
    obtain ⟨entry, before, id⟩ := open' name kept found
    obtain ⟨former, earlier, its⟩ := open' other twin known
    exact ordered.distinct name other entry former before earlier (id ▸ its ▸ same)
  numbered := by
    intro name kept found
    obtain ⟨entry, before, id⟩ := open' name kept found
    rw [opened, id]
    exact ordered.numbered name entry before
  past := fun record member => opened ▸ past record member

theorem follows_local (ordered : world.Ordered) (name : String) (later : Nat → Work)
    (reaches : ∀ entry, world.find? name = some entry →
      Traffic.Reaches calls ⟨world.view entry, works name⟩ ⟨world.view entry, later⟩) :
    Follows calls world works world (Function.update works name later) := by
  refine ⟨rfl, rfl, ordered, fun _ missing => missing, ?_⟩
  intro other entry found
  refine ⟨entry, found, rfl, rfl, ?_⟩
  by_cases same : other = name
  · subst same
    rw [Function.update_self]
    exact reaches entry found
  · rw [Function.update_of_ne same]
    exact Traffic.reaches_refl _

theorem follows_fire (ordered : world.Ordered) (token : Token) :
    Follows calls world works (world.fire token) works := by
  obtain ⟨guard, opened, trace⟩ := world.fire_frame token
  refine ⟨guard, opened, ordered.after opened ?_ (trace ▸ ordered.past), ?_, ?_⟩
  · intro name kept found
    exact ⟨kept, by rwa [find?_fire] at found, rfl⟩
  · intro name missing
    rwa [find?_fire]
  · intro name entry found
    refine ⟨entry, by rwa [find?_fire], rfl, rfl, ?_⟩
    have seen : (world.fire token).view entry =
        if entry.token = token then Traffic.cancelled (world.view entry) else world.view entry := by
      simp only [view, current, isFired_fire, trace]
      split <;> simp_all [Traffic.cancelled]
    rw [seen]
    split
    · exact Traffic.reaches_step _ .cancel
    · exact Traffic.reaches_refl _

theorem view_keep (name : String) (entry : OpenRequest) (state : State)
    (extension : (world.view entry).Extends state) :
    (world.keep name entry state).view ⟨entry.token, state.request⟩ = state := by
  have fired := extension.cancelled
  obtain ⟨⟨id, context, cancelled, memo⟩, trace⟩ := state
  simp only [view, current, isFired_keep, world.keep_frame, decide_true, Bool.and_true] at fired ⊢
  cases cancelled with
  | true => rfl
  | false => simpa using fired

theorem view_keep_reaches (name : String) (entry twin : OpenRequest) (state : State)
    (records : Trace) (grown : state.trace = world.trace ++ records)
    (foreign : ∀ record ∈ records, record.request ≠ twin.request.id) (callers : Nat → Work) :
    Traffic.Reaches calls ⟨world.view twin, callers⟩
      ⟨(world.keep name entry state).view twin, callers⟩ := by
  have filtered : records.filter (fun record => record.request != twin.request.id) = records :=
    List.filter_eq_self.mpr fun record member => bne_iff_ne.mpr (foreign record member)
  have joined : Traffic.joinedBy records (world.view twin) =
      ⟨world.current twin, world.trace ++ records⟩ := by
    simp only [Traffic.joinedBy, view, current, filtered]
  have seen : (world.keep name entry state).view twin =
      if state.request.cancelled = true ∧ twin.token = entry.token then
        Traffic.cancelled (Traffic.joinedBy records (world.view twin))
      else Traffic.joinedBy records (world.view twin) := by
    rw [joined]
    simp only [view, current, isFired_keep, world.keep_frame, grown]
    by_cases shares : twin.token = entry.token <;> cases state.request.cancelled <;>
      simp [shares, Traffic.cancelled]
  refine (Traffic.reaches_step _ (.elsewhere records)).trans ?_
  rw [seen]
  split
  · exact Traffic.reaches_step _ .cancel
  · exact Traffic.reaches_refl _

theorem follows_keep (ordered : world.Ordered) {name : String} {entry : OpenRequest}
    (found : world.find? name = some entry) (state : State)
    (extension : (world.view entry).Extends state) (later : Nat → Work)
    (reaches : Traffic.Reaches calls ⟨world.view entry, works name⟩ ⟨state, later⟩) :
    Follows calls world works (world.keep name entry state) (Function.update works name later) := by
  obtain ⟨guard, opened, trace⟩ := world.keep_frame name entry state
  have kept := world.find?_keep name entry state found
  obtain ⟨records, grown, own⟩ := extension.trace
  refine ⟨guard, opened, ordered.after opened ?_ ?_, ?_, ?_⟩
  · intro other kept' known
    rw [kept] at known
    split at known
    · next same =>
      cases known
      exact ⟨entry, same ▸ found, extension.id⟩
    · exact ⟨kept', known, rfl⟩
  · intro record member
    rw [trace, grown, List.mem_append] at member
    rcases member with old | new
    · exact ordered.past record old
    · exact (own record new).symm ▸ ordered.numbered name entry found
  · intro other missing
    have differs : other ≠ name := by
      rintro rfl
      rw [found] at missing
      cases missing
    rw [kept, if_neg differs, missing]
  · intro other twin known
    -- the request itself has seen the traffic, every other one the records that it left
    by_cases same : other = name
    · subst same
      rw [found] at known
      cases known
      refine ⟨⟨entry.token, state.request⟩, by simp [kept], rfl, extension.id, ?_⟩
      rw [world.view_keep other entry state extension, Function.update_self]
      exact reaches
    · refine ⟨twin, by rw [kept, if_neg same, known], rfl, rfl, ?_⟩
      rw [Function.update_of_ne same]
      apply world.view_keep_reaches name entry twin state records grown
      intro record member foreign
      exact same (ordered.distinct other name twin entry known found (foreign ▸ own record member))

end World

namespace Action

def asks : Action → Bool
  | .resolve _ _ | .check _ | .evaluate _ _ _ => true
  | .cancel _ | .sleep _ => false

def call (guard : Guard) : Action → Call
  | .resolve access resolver => .resolve guard access resolver
  | .check access => .check guard access
  | .evaluate rule precedence access => .evaluate rule precedence access
  | .cancel _ | .sleep _ => .check guard (.bare "" "")

variable (name : String) (action : Action) (work : Work) (world : World)

theorem poll_done (answer : Answer) : action.poll name (.done answer) world = (.done answer, world) := by
  cases action <;> rfl

theorem poll_absent (asks : action.asks = true) (waiting : ∀ answer, work ≠ .done answer)
    (missing : world.find? name = none) : action.poll name work world = (.done .noRequest, world) := by
  cases action <;> cases asks <;> cases work <;>
    first | exact absurd rfl (waiting _) | simp [Action.poll, missing]

theorem poll_present (asks : action.asks = true) (waiting : ∀ answer, work ≠ .done answer)
    (entry : OpenRequest) (found : world.find? name = some entry) :
    action.poll name work world =
      let polled := (action.call world.guard).poll world.now work (world.view entry)
      (polled.1, world.keep name entry polled.2) := by
  cases action <;> cases asks <;> cases work <;>
    first
    | exact absurd rfl (waiting _)
    | simp only [Action.poll, found, World.withState_eq, call, Call.poll]

variable {calls : Nat → Call} {works : Works} {world}

theorem poll_follows (ordered : world.Ordered) (caller : Nat)
    (own : action.asks = true → calls caller = action.call world.guard ∧ works name caller = work) :
    World.Follows calls world works (action.poll name work world).2
      (if action.asks then works.put name caller (action.poll name work world).1 else works) := by
  cases asks : action.asks with
  | true =>
    obtain ⟨called, reached⟩ := own asks
    simp only [if_true]
    rcases work.done_or_waiting with ⟨answer, rfl⟩ | waiting
    · rw [poll_done, ← reached, works.put_self]
      exact World.follows_refl ordered
    cases found : world.find? name with
    | none =>
      rw [action.poll_absent name work world asks waiting found]
      exact World.follows_local ordered name _ (fun entry known => by simp [found] at known)
    | some entry =>
      rw [action.poll_present name work world asks waiting entry found]
      -- one poll of the action is one move of its caller
      refine World.follows_keep ordered found _ (Call.poll_extends _ _ _ _) _
        ⟨[.poll caller world.now], ?_⟩
      simp only [Traffic.run, List.foldl_cons, List.foldl_nil, Traffic.step, called, reached]
  | false =>
    simp only [Bool.false_eq_true, if_false]
    cases work with
    | done answer =>
      rw [poll_done]
      exact World.follows_refl ordered
    | _ =>
      cases action with
      | sleep duration => exact World.follows_refl ordered
      | cancel shared =>
        cases shared with
        | some token => exact World.follows_fire ordered _
        | none =>
          simp only [Action.poll]
          cases world.find? name with
          | none => exact World.follows_refl ordered
          | some entry => exact World.follows_fire ordered _
      | _ => cases asks

end Action

end FieldGuard
