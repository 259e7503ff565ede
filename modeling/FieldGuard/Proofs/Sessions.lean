import FieldGuard.Proofs.SingleFlight
import FieldGuard.Proofs.Worlds
import FieldGuard.Simulation.Session

set_option autoImplicit false

namespace FieldGuard

def TaskState.work : TaskState → Work
  | .delayed _ => .fresh
  | .running _ work => work
  | .finished _ answer => .done answer

namespace Task

variable (task : Task)

def put (works : Works) (caller : Nat) (work : Work) : Works :=
  if task.action.asks then works.put task.request caller work else works

variable (deadline : Nat) (work : Work) (world : World)

theorem run_eq :
    task.run deadline work world =
      let polled := task.action.poll task.request work world
      match polled.1 with
      | .done answer => (.finished polled.2.now answer, polled.2)
      | later =>
          if deadline ≤ polled.2.now then (.finished polled.2.now .timedOut, polled.2)
          else (.running deadline later, polled.2) := by
  unfold run
  generalize task.action.poll task.request work world = polled
  obtain ⟨later, after⟩ := polled
  cases later <;> rfl

theorem run_world : (task.run deadline work world).2 =
    (task.action.poll task.request work world).2 := by
  rw [run_eq]
  dsimp only
  split
  · rfl
  · split <;> rfl

theorem run_work :
    (task.run deadline work world).1.work = (task.action.poll task.request work world).1 ∨
      (task.run deadline work world).1.work =
        Traffic.dropped (task.action.poll task.request work world).1 := by
  rw [run_eq]
  dsimp only
  generalize (task.action.poll task.request work world).1 = later
  cases later with
  | done answer => exact Or.inl rfl
  | _ =>
    dsimp only
    split
    · exact Or.inr rfl
    · exact Or.inl rfl

variable {calls : Nat → Call} {works : Works} {world}

theorem run_follows (ordered : world.Ordered) (caller : Nat)
    (own : task.action.asks = true →
      calls caller = task.action.call world.guard ∧ works task.request caller = work) :
    World.Follows calls world works (task.run deadline work world).2
      (task.put works caller (task.run deadline work world).1.work) := by
  have polled := task.action.poll_follows task.request work ordered caller own
  rw [run_world]
  unfold put
  rcases task.run_work deadline work world with same | dropped
  · rw [same]
    exact polled
  · rw [dropped]
    cases asks : task.action.asks with
    | false => simpa [asks] using polled
    | true =>
      simp only [asks, if_true] at polled ⊢
      rw [← works.put_put task.request caller (task.action.poll task.request work world).1]
      refine polled.trans (World.follows_local polled.ordered task.request _ fun entry found => ?_)
      refine ⟨[.drop caller], ?_⟩
      simp [Traffic.run, Traffic.step, Works.put]

theorem poll_follows (ordered : world.Ordered) (caller : Nat) (state : TaskState)
    (own : task.action.asks = true →
      calls caller = task.action.call world.guard ∧ works task.request caller = state.work) :
    World.Follows calls world works (task.poll state world).2
      (task.put works caller (task.poll state world).1.work) := by
  have idle (own : task.action.asks = true → works task.request caller = state.work) :
      World.Follows calls world works world (task.put works caller state.work) := by
    have same : task.put works caller state.work = works := by
      unfold put
      split
      · next asks => rw [← own asks, works.put_self]
      · rfl
    rw [same]
    exact World.follows_refl ordered
  cases state with
  | finished time answer => exact idle fun asks => (own asks).2
  | running deadline work => exact task.run_follows deadline work ordered caller own
  | delayed start =>
    unfold poll
    dsimp only
    split
    · exact task.run_follows _ .fresh ordered caller own
    · exact idle fun asks => (own asks).2

end Task

namespace Tasks

def call (guard : Guard) (tasks : Tasks) (caller : Nat) : Call :=
  match tasks[caller]? with
  | some (task, _) => task.action.call guard
  | none => .check guard (.bare "" "")

def works (tasks : Tasks) : Works := fun name caller =>
  match tasks[caller]? with
  | some (task, state) => if task.request = name ∧ task.action.asks = true then state.work else .fresh
  | none => .fresh

section

variable (tasks : Tasks) (caller : Nat) (task : Task) (state later : TaskState)
  (found : tasks[caller]? = some (task, state))

include found

theorem call_set (guard : Guard) : Tasks.call guard (tasks.set caller (task, later)) = tasks.call guard := by
  obtain ⟨inside, _⟩ := List.getElem?_eq_some_iff.mp found
  funext other
  unfold call
  by_cases same : other = caller
  · subst same
    simp only [List.getElem?_set_self inside, found]
  · simp only [List.getElem?_set_ne (Ne.symm same)]

theorem works_set : Tasks.works (tasks.set caller (task, later)) =
    task.put tasks.works caller later.work := by
  obtain ⟨inside, _⟩ := List.getElem?_eq_some_iff.mp found
  funext name other
  have others (differs : other ≠ caller) :
      Tasks.works (tasks.set caller (task, later)) name other = tasks.works name other := by
    simp only [works, List.getElem?_set_ne (Ne.symm differs)]
  unfold Task.put
  split
  · next asks =>
    rw [Works.put_apply]
    by_cases same : other = caller
    · subst same
      by_cases own : task.request = name
      · simp [works, List.getElem?_set_self inside, own, asks]
      · simp [works, List.getElem?_set_self inside, found, own, Ne.symm own]
    · simp [same, others same]
  · next silent =>
    by_cases same : other = caller
    · subst same
      simp [works, List.getElem?_set_self inside, found, silent]
    · exact others same

end

variable {world : World}

theorem round_follows (before tasks : Tasks) (world : World) (ordered : world.Ordered) :
    Tasks.call world.guard (before ++ (tasks.round world).1) = Tasks.call world.guard (before ++ tasks) ∧
      World.Follows (Tasks.call world.guard (before ++ tasks)) world (Tasks.works (before ++ tasks))
        (tasks.round world).2 (Tasks.works (before ++ (tasks.round world).1)) := by
  induction tasks generalizing before world with
  | nil => exact ⟨rfl, World.follows_refl ordered⟩
  | cons entry rest ih =>
    obtain ⟨task, state⟩ := entry
    have found : (before ++ (task, state) :: rest)[before.length]? = some (task, state) := by simp
    -- the tasks before have come on already, those behind are still where they were
    have polled : World.Follows (Tasks.call world.guard (before ++ (task, state) :: rest)) world
        (Tasks.works (before ++ (task, state) :: rest)) _ _ :=
      task.poll_follows ordered before.length state (fun asks => by simp [call, works, asks])
    simp only [round]
    generalize task.poll state world = result at polled
    obtain ⟨later, after⟩ := result
    dsimp only at polled ⊢
    have set : (before ++ (task, state) :: rest).set before.length (task, later) =
        before ++ (task, later) :: rest := by simp
    have called := call_set _ before.length task state later found world.guard
    rw [← works_set _ before.length task state later found, set] at polled
    rw [set] at called
    obtain ⟨same, follows⟩ := ih (before ++ [(task, later)]) after polled.ordered
    simp only [List.append_assoc, List.singleton_append, polled.guard, called] at same follows
    exact ⟨same, polled.trans follows⟩

theorem follows_now {calls : Nat → Call} {works : Works} (ordered : world.Ordered) (instant : Nat) :
    World.Follows calls world works { world with now := instant } works where
  guard := rfl
  opened := rfl
  ordered := ⟨ordered.distinct, ordered.numbered, ordered.past⟩
  absent := fun _ missing => missing
  present := fun _ entry found => ⟨entry, found, rfl, rfl, Traffic.reaches_refl _⟩

theorem run_follows (rounds : Nat) (tasks : Tasks) (world : World) (ordered : world.Ordered) :
    World.Follows (tasks.call world.guard) world tasks.works (tasks.run rounds world).2
      (tasks.run rounds world).1.works := by
  induction rounds generalizing tasks world with
  | zero => exact World.follows_refl ordered
  | succ rounds ih =>
    obtain ⟨same, follows⟩ := round_follows [] tasks world ordered
    simp only [List.nil_append] at same follows
    -- a further round begins in the world that this one leaves, perhaps at a later instant
    have onward (later : World) (between : World.Follows (tasks.call world.guard) world tasks.works
          later (tasks.round world).1.works) :
        World.Follows (tasks.call world.guard) world tasks.works
          ((tasks.round world).1.run rounds later).2 ((tasks.round world).1.run rounds later).1.works := by
      have rest := ih (tasks.round world).1 later between.ordered
      rw [between.guard, same] at rest
      exact between.trans rest
    simp only [run]
    split
    · exact follows
    · split
      · exact onward _ follows
      · split
        · exact onward _ (follows.trans (follows_now follows.ordered _))
        · exact follows

theorem works_start (tasks : List Task) (world : World) :
    Tasks.works (Tasks.start tasks world) = fun _ _ => .fresh := by
  funext name caller
  unfold works start
  rw [List.getElem?_map]
  cases tasks[caller]? with
  | none => rfl
  | some task => simp [TaskState.work]

end Tasks

def Move.along (place : Nat → Nat) : Move → Move
  | .poll caller now => .poll (place caller) now
  | .drop caller => .drop (place caller)
  | .cancel => .cancel
  | .elsewhere records => .elsewhere records

namespace Traffic

structure Within (place : Nat → Nat) (calls others : Nat → Call) (traffic larger : Traffic) :
    Prop where
  calls : ∀ caller, others (place caller) = calls caller
  state : larger.state = traffic.state
  works : ∀ caller, larger.works (place caller) = traffic.works caller

variable {place : Nat → Nat} {calls others : Nat → Call} {traffic larger : Traffic}

theorem Within.step (injective : Function.Injective place)
    (within : Within place calls others traffic larger) (move : Move) :
    Within place calls others (Traffic.step calls traffic move)
        (Traffic.step others larger (move.along place)) ∧
      ∀ other, (∀ caller, place caller ≠ other) →
        (Traffic.step others larger (move.along place)).works other = larger.works other := by
  obtain ⟨called, state, works⟩ := within
  have updated (caller : Nat) (work : Work) :
      (∀ other, Function.update larger.works (place caller) work (place other) =
        Function.update traffic.works caller work other) ∧
      ∀ other, (∀ caller, place caller ≠ other) →
        Function.update larger.works (place caller) work other = larger.works other := by
    constructor
    · intro other
      by_cases same : other = caller
      · simp [same]
      · rw [Function.update_of_ne same, Function.update_of_ne (injective.ne same), works]
    · intro other apart
      exact Function.update_of_ne (Ne.symm (apart caller)) _ _
  cases move with
  | poll caller now =>
    simp only [Traffic.step, Move.along, called, works, state]
    exact ⟨⟨called, rfl, (updated caller _).1⟩, (updated caller _).2⟩
  | drop caller =>
    simp only [Traffic.step, Move.along, works]
    exact ⟨⟨called, state, (updated caller _).1⟩, (updated caller _).2⟩
  | cancel => exact ⟨⟨called, by simp [Traffic.step, Move.along, state], works⟩, fun _ _ => rfl⟩
  | elsewhere records =>
    exact ⟨⟨called, by simp [Traffic.step, Move.along, state], works⟩, fun _ _ => rfl⟩

theorem Within.run (injective : Function.Injective place)
    (within : Within place calls others traffic larger) (moves : List Move) :
    Within place calls others (Traffic.run calls traffic moves)
        (Traffic.run others larger (moves.map (Move.along place))) ∧
      ∀ other, (∀ caller, place caller ≠ other) →
        (Traffic.run others larger (moves.map (Move.along place))).works other =
          larger.works other := by
  induction moves generalizing traffic larger with
  | nil => exact ⟨within, fun _ _ => rfl⟩
  | cons move rest ih =>
    obtain ⟨after, apart⟩ := within.step injective move
    obtain ⟨final, further⟩ := ih after
    exact ⟨final, fun other none => (further other none).trans (apart other none)⟩

def Comes (id : RequestId) (state : State) : Prop :=
  ∃ calls context history moves, (run calls (opened id context history) moves).state = state

theorem Comes.resume {id : RequestId} {state : State} (comes : Comes id state) (later : Traffic)
    (reaches : Reaches others ⟨state, fun _ => .fresh⟩ later) : Comes id later.state := by
  obtain ⟨calls, context, history, moves, rfl⟩ := comes
  obtain ⟨further, rfl⟩ := reaches
  -- the callers before get the even places, the others get the odd ones
  let every : Nat → Call := fun caller =>
    if caller % 2 = 0 then calls (caller / 2) else others (caller / 2)
  have first : Within (fun caller => 2 * caller) calls every (opened id context history)
      (opened id context history) := by
    refine ⟨fun caller => ?_, rfl, fun _ => rfl⟩
    simp [every]
  obtain ⟨former, apart⟩ := first.run (fun _ _ same => by omega) moves
  have second : Within (fun caller => 2 * caller + 1) others every
      ⟨(run calls (opened id context history) moves).state, fun _ => .fresh⟩
      (run every (opened id context history) (moves.map (Move.along fun caller => 2 * caller))) := by
    refine ⟨fun caller => ?_, former.state, fun caller => ?_⟩
    · have odd : (2 * caller + 1) % 2 = 1 := by omega
      have half : (2 * caller + 1) / 2 = caller := by omega
      simp [every, odd, half]
    · exact apart _ (fun other same => by omega)
  obtain ⟨latter, _⟩ := second.run (fun _ _ same => by omega) further
  refine ⟨every, context, history, moves.map (Move.along fun caller => 2 * caller) ++
    further.map (Move.along fun caller => 2 * caller + 1), ?_⟩
  rw [run_append]
  exact latter.state

end Traffic

namespace World

variable {world : World}

/-- Every open request is in a state to which traffic may have come. -/
structure Told (world : World) : Prop where
  ordered : world.Ordered
  comes : ∀ name entry, world.find? name = some entry →
    Traffic.Comes entry.request.id (world.view entry)

theorem start_told (guard : Guard) : (World.start guard).Told where
  ordered := ⟨fun _ _ _ _ found => (by cases found), fun _ _ found => (by cases found),
    fun _ member => (by cases member)⟩
  comes := fun _ _ found => (by cases found)

theorem Told.tasks (told : world.Told) (tasks : List Task) (rounds : Nat) :
    ((Tasks.start tasks world).run rounds world).2.Told := by
  have follows := Tasks.run_follows rounds (Tasks.start tasks world) world told.ordered
  refine ⟨follows.ordered, fun name kept known => ?_⟩
  cases found : world.find? name with
  | none =>
    rw [follows.absent name found] at known
    cases known
  | some entry =>
    obtain ⟨same, here, _, id, reaches⟩ := follows.present name entry found
    rw [here] at known
    cases known
    rw [Tasks.works_start] at reaches
    rw [id]
    exact (told.comes name entry found).resume _ reaches

theorem find?_close (name other : String) :
    (world.close name).find? other = if other = name then none else world.find? other :=
  lookup_removed world.requests name other

theorem Told.close (told : world.Told) (name : String) : (world.close name).Told := by
  have kept (other : String) (entry : OpenRequest) (found : (world.close name).find? other = some entry) :
      world.find? other = some entry := by
    rw [find?_close] at found
    split at found
    · cases found
    · exact found
  refine ⟨told.ordered.after rfl (fun other entry found => ⟨entry, kept other entry found, rfl⟩)
    told.ordered.past, fun other entry found => told.comes other entry (kept other entry found)⟩

theorem find?_openRequest (world : World) (name : String) (context : Json)
    (shared : Option String) :
    ∃ entry : OpenRequest, entry.request = Request.start (world.opened + 1) context ∧
      ∀ other, (world.openRequest name context shared).find? other =
        if other = name then some entry else world.find? other := by
  have closed (other : String) : (world.close name).requests.lookup other =
      if other = name then none else world.find? other :=
    world.find?_close name other
  have added (entry : OpenRequest) (other : String) :
      ((world.close name).requests ++ [(name, entry)]).lookup other =
        if other = name then some entry else world.find? other := by
    rw [lookup_added _ _ _ _ ((closed name).trans (if_pos rfl)), closed other]
    split <;> rfl
  cases shared with
  | none => exact ⟨⟨.own (world.opened + 1), _⟩, rfl, added _⟩
  | some token => exact ⟨⟨.shared token, _⟩, rfl, added _⟩

theorem Ordered.openRequest (ordered : world.Ordered) (name : String) (context : Json)
    (shared : Option String) : (world.openRequest name context shared).Ordered := by
  obtain ⟨entry, fresh, known⟩ := world.find?_openRequest name context shared
  have next : entry.request.id = world.opened + 1 := by
    rw [fresh]
    rfl
  have unlike (other : String) (twin : OpenRequest) (found : world.find? other = some twin) :
      twin.request.id ≠ entry.request.id := by
    rw [next]
    exact Nat.ne_of_lt (Nat.lt_succ_of_le (ordered.numbered other twin found))
  refine ⟨?_, ?_, fun record member => Nat.le_succ_of_le (ordered.past record member)⟩
  · intro one other twin brother found others same
    rw [known] at found others
    split at found <;> split at others
    · next here there => rw [here, there]
    · cases found
      exact absurd same.symm (unlike other brother others)
    · cases others
      exact absurd same (unlike one twin found)
    · exact ordered.distinct one other twin brother found others same
  · intro other twin found
    rw [known] at found
    split at found
    · cases found
      exact Nat.le_of_eq next
    · exact Nat.le_succ_of_le (ordered.numbered other twin found)

theorem fresh_comes (ordered : world.Ordered) (entry : OpenRequest) (context : Json)
    (fresh : entry.request = Request.start (world.opened + 1) context) :
    Traffic.Comes entry.request.id (world.view entry) := by
  -- no record tells of a request that has just been opened
  have history : world.trace.filter (fun record => record.request != world.opened + 1) =
      world.trace := by
    apply List.filter_eq_self.mpr
    intro record member
    exact bne_iff_ne.mpr (Nat.ne_of_lt (Nat.lt_succ_of_le (ordered.past record member)))
  have opened : (Traffic.opened entry.request.id context world.trace).state =
      ⟨entry.request, world.trace⟩ := by
    simp only [Traffic.opened, fresh]
    exact congrArg (State.mk _) history
  refine ⟨fun _ => .check world.guard (.bare "" ""), context, world.trace,
    if world.isFired entry.token then [.cancel] else [], ?_⟩
  cases fired : world.isFired entry.token with
  | true =>
    simp only [if_true, Traffic.run, List.foldl_cons, List.foldl_nil, Traffic.step, opened]
    simp only [Traffic.cancelled, view, current, fired]
  | false =>
    simp only [Bool.false_eq_true, if_false, Traffic.run, List.foldl_nil, opened]
    simp only [view, current, fired, fresh, Request.start]

theorem Told.openRequest (told : world.Told) (name : String) (context : Json)
    (shared : Option String) : (world.openRequest name context shared).Told := by
  obtain ⟨entry, fresh, known⟩ := world.find?_openRequest name context shared
  refine ⟨told.ordered.openRequest name context shared, fun other twin found => ?_⟩
  rw [known] at found
  split at found
  · cases found
    exact fresh_comes told.ordered entry context fresh
  · exact told.comes other twin found

theorem Told.perform (told : world.Told) (step : SessionStep) : (world.perform step).2.Told := by
  cases step with
  | openRequest name context shared => exact told.openRequest name context shared
  | closeRequest name => exact told.close name
  | describe name =>
    simp only [World.perform]
    split <;> exact told
  | single task => exact told.tasks [task] roundLimit
  | concurrent tasks => exact told.tasks tasks roundLimit

def performed (world : World) (steps : List SessionStep) : World :=
  steps.foldl (fun world step => (world.perform step).2) world

theorem Told.performed (told : world.Told) (steps : List SessionStep) :
    (world.performed steps).Told := by
  induction steps generalizing world with
  | nil => exact told
  | cons step rest ih => exact ih (told.perform step)

/-- Whatever a session does, the memo of an open request has the flight that the trace tells of, for
each of its keys. -/
theorem performed_recorded (guard : Guard) (steps : List SessionStep) (name : String)
    (entry : OpenRequest) (found : ((World.start guard).performed steps).find? name = some entry)
    (key : Key) (own : key.request = entry.request.id) :
    Recorded (((World.start guard).performed steps).trace.activities key)
      (entry.request.memo.find? key) := by
  obtain ⟨calls, context, history, moves, same⟩ :=
    ((start_told guard).performed steps).comes name entry found
  have records := Traffic.run_records calls entry.request.id context history moves
  rw [same] at records
  exact records.flights key own

theorem performed_once (guard : Guard) (steps : List SessionStep) (name : String)
    (entry : OpenRequest) (found : ((World.start guard).performed steps).find? name = some entry)
    (key : Key) (own : key.request = entry.request.id) :
    (((World.start guard).performed steps).trace.activities key).count .called ≤ 1 :=
  (performed_recorded guard steps name entry found key own).once

end World

end FieldGuard
