import FieldGuard.Proofs.Books

set_option autoImplicit false

namespace FieldGuard

namespace Memo

variable (memo : Memo) (key : Key) (flight : Flight)

theorem find?_of_mem (distinct : memo.keys.Nodup) (member : (key, flight) ∈ memo.flights) :
    memo.find? key = some flight := by
  obtain ⟨flights, hits, misses⟩ := memo
  simp only [keys, find?] at distinct member ⊢
  induction flights with
  | nil => cases member
  | cons entry rest ih =>
    obtain ⟨found, other⟩ := entry
    rw [List.map_cons, List.nodup_cons] at distinct
    rw [lookup_cons_eq]
    rcases List.mem_cons.mp member with same | inside
    · cases same
      rw [if_pos rfl]
    · have differs : key ≠ found := by
        rintro rfl
        exact distinct.1 (List.mem_map.mpr ⟨_, inside, rfl⟩)
      rw [if_neg differs]
      exact ih distinct.2 inside

def isSettled (memo : Memo) (key : Key) : Bool :=
  ((memo.find? key).bind Flight.decision?).isSome

theorem isSettled_iff :
    memo.isSettled key = true ↔ ∃ decision, memo.find? key = some (.settled decision) := by
  unfold isSettled
  rcases memo.find? key with _ | ⟨suspension, resume⟩ | decision <;> simp [Flight.decision?]

theorem size_eq (distinct : memo.keys.Nodup) : memo.size = memo.keys.countP memo.isSettled := by
  rw [keys, List.countP_map, size]
  refine List.countP_congr fun entry member => ?_
  have found := memo.find?_of_mem entry.1 entry.2 distinct member
  simp [isSettled, found]

theorem size_le {before after : Memo} (distinct : before.keys.Nodup) (still : after.keys.Nodup)
    (stays : ∀ key decision, before.find? key = some (.settled decision) →
      after.find? key = some (.settled decision)) : before.size ≤ after.size := by
  rw [size_eq before distinct, size_eq after still, List.countP_eq_length_filter,
    List.countP_eq_length_filter]
  refine ((distinct.filter _).subperm fun key member => ?_).length_le
  rw [List.mem_filter, isSettled_iff] at member ⊢
  obtain ⟨_, decision, found⟩ := member
  have kept := stays key decision found
  exact ⟨(after.find?_isSome_iff key).mp (by rw [kept]; rfl), decision, kept⟩

end Memo

theorem Trace.mem_activities {trace : Trace} {key : Key}
    (called : some key ∈ (trace.callsOn key.request).map Prod.snd) :
    .called ∈ trace.activities key := by
  obtain ⟨call, member, same⟩ := List.mem_map.mp called
  obtain ⟨record, inside, shown⟩ := List.mem_filterMap.mp member
  refine List.mem_filterMap.mpr ⟨record, inside, ?_⟩
  revert shown
  cases record.event with
  | predicate id name asked activity =>
    cases activity with
    | called =>
      intro shown
      obtain ⟨own, entry⟩ := Option.ite_none_right_eq_some.mp shown
      cases entry
      cases same
      exact if_pos ⟨own, rfl⟩
    | _ => simp
  | _ => simp

theorem Question.Polled.unshared {question : Question} {id : RuleId} {visit : Visit}
    {state after : State} {stage later : Stage}
    (polled : question.Polled id visit state stage later after)
    (stands : question.Stands id state.request.id visit.access stage)
    (unshared : question.sharing = .none) : after.request.memo = state.request.memo := by
  have unknown (request : RequestId) : Key.of? question.sharing id request visit.access = none := by
    rw [unshared]
    rfl
  induction polled with
  | cancelled state stage cancelled => rfl
  | lost state key missing => rfl
  | own state flight running => rfl
  | shared state key flight running found =>
    rw [Question.Stands, unknown] at stands
    cases stands
  | joined state looked stage later after key running known calm still polled ih =>
    rw [unknown] at known
    cases known
  | launched state looked stage key running known missing calm still =>
    rw [unknown] at known
    cases known
  | alone state stage running unknown => rw [question.launch_request]

/-- Whether a leaf is reached that is cached, in a request that is not cancelled. -/
def Probe.reaches (probe : Probe) : Bool :=
  probe.stage.isFresh && !probe.state.request.cancelled && probe.question.sharing != .none

def Probe.lookup? (probe : Probe) : Option Key :=
  if probe.reaches then
    Key.of? probe.question.sharing probe.id probe.state.request.id probe.visit.access
  else none

namespace Probe

variable (probe : Probe)

theorem lookup?_isSome : probe.lookup?.isSome = probe.reaches := by
  unfold lookup?
  cases reached : probe.reaches with
  | false => rfl
  | true =>
    have shared : probe.question.sharing ≠ .none := by
      unfold reaches at reached
      simpa using (Bool.and_eq_true_iff.mp reached).2
    cases sharing : probe.question.sharing with
    | none => exact absurd sharing shared
    | contextual => rfl
    | strict => rfl

theorem lookup?_request {key : Key} (found : probe.lookup? = some key) :
    key.request = probe.state.request.id :=
  (Key.of?_eq_some (Option.ite_none_right_eq_some.mp found).2).1

theorem booked?_key : probe.booked?.bind Prod.snd = probe.lookup? := by
  unfold booked? lookup? reaches
  cases probe.state.request.cancelled with
  | true => simp
  | false =>
    cases probe.stage.isFresh with
    | false => simp
    | true =>
      cases sharing : probe.question.sharing <;> cases probe.question.predicate <;> simp [Key.of?]

theorem lookups_unshared (plain : probe.question.Plain)
    (single : ∀ operands first, probe.stage ≠ .group operands first)
    (unshared : probe.question.sharing = .none) :
    probe.after.books.lookups = probe.state.books.lookups := by
  have polled : probe.after.books = probe.booked?.elim probe.state.books probe.state.books.enter :=
    probe.question.poll_books probe.id probe.visit probe.state probe.stage plain single
  have unknown : probe.booked?.bind Prod.snd = none := by
    rw [booked?_key, lookup?, unshared]
    exact ite_self none
  rw [polled]
  cases entry : probe.booked? with
  | none => rfl
  | some call =>
    obtain ⟨id, key⟩ := call
    rw [entry] at unknown
    cases unknown
    rfl

end Probe

theorem Recorded.settled_iff {activities : List Activity} {flight : Option Flight}
    (recorded : Recorded activities flight) (called : .called ∈ activities) :
    ((flight.bind Flight.decision?).isSome = true) ↔
      (.finished ∈ activities ∨ .panicked ∈ activities) := by
  cases recorded with
  | unasked => cases called
  | constant decision => cases called
  | called process activities flight course =>
    obtain ⟨rest, rfl, follows⟩ := course.follows
    cases flight with
    | suspended suspension resume =>
      obtain ⟨steps, rfl⟩ := follows
      simp [Flight.decision?]
    | settled decision =>
      obtain ⟨steps, rfl | rfl⟩ := follows <;> simp [Flight.decision?]

namespace Traffic

/-- The counts of a cache, its slots and its settled keys against the leaves that were asked and the
calls and lookups on record. -/
structure Accounted (request : RequestId) (asked : List Probe) (state : State) : Prop where
  distinct : (state.request.memo.flights.map Prod.fst).Nodup
  slots : state.request.memo.misses = state.request.memo.flights.length
  looked : state.request.memo.misses = (asked.filterMap Probe.lookup?).dedup.length
  called : state.request.memo.misses =
    (state.trace.callsOn request).countP fun call => call.2.isSome
  reached : state.request.memo.hits + state.request.memo.misses = asked.countP Probe.reaches
  hitRecords : state.request.memo.hits = (state.trace.lookups request).countP fun entry => entry.2
  missRecords : state.request.memo.misses =
    (state.trace.lookups request).countP fun entry => !entry.2
  missedOnce : ∀ key, (state.trace.lookups request).count (key, false) ≤ 1
  settled : state.request.memo.size = (asked.filterMap Probe.lookup?).dedup.countP fun key =>
    .finished ∈ state.trace.activities key ∨ .panicked ∈ state.trace.activities key
  bounded : state.request.memo.size ≤ state.request.memo.misses

theorem accounted_of_balanced {request : RequestId} {asked : List Probe} {state : State}
    (records : state.Records request)
    (own : ∀ probe ∈ asked, probe.state.request.id = request)
    (balanced : state.books.Balanced (asked.filterMap Probe.booked?)) :
    Accounted request asked state := by
  obtain rfl := records.id
  have entries : (asked.filterMap Probe.booked?).filterMap Prod.snd =
      asked.filterMap Probe.lookup? := by
    rw [List.filterMap_filterMap]
    exact List.filterMap_congr fun probe _ => probe.booked?_key
  have keys : state.request.memo.keys.Perm (asked.filterMap Probe.lookup?).dedup :=
    entries ▸ balanced.keys_perm
  have ended (key : Key) (member : key ∈ state.request.memo.keys) :
      state.request.memo.isSettled key = true ↔
        (.finished ∈ state.trace.activities key ∨ .panicked ∈ state.trace.activities key) := by
    -- a key in the memo was looked up by a leaf of this request, which called its predicate
    obtain ⟨probe, inside, found⟩ := List.mem_filterMap.mp (List.mem_dedup.mp (keys.subset member))
    have here : key.request = state.request.id := (probe.lookup?_request found).trans (own probe inside)
    refine (records.flights key here).settled_iff (Trace.mem_activities ?_)
    rw [here, List.mem_map]
    have member : key ∈ state.books.calls.filterMap Prod.snd := by rwa [balanced.called]
    obtain ⟨call, inside, same⟩ := List.mem_filterMap.mp member
    exact ⟨call, inside, same⟩
  have size := state.request.memo.size_eq balanced.distinct
  refine ⟨balanced.distinct, ?_, ?_, ?_, ?_, balanced.hits, balanced.missRecords,
    balanced.missedOnce, ?_, ?_⟩
  · exact balanced.misses.trans (List.length_map _)
  · exact balanced.misses.trans keys.length_eq
  · rw [← List.length_filterMap_eq_countP]
    exact balanced.misses.trans (congrArg List.length balanced.called).symm
  · rw [← funext Probe.lookup?_isSome, ← List.length_filterMap_eq_countP, ← entries]
    exact balanced.total
  · rw [size, ← keys.countP_eq]
    exact List.countP_congr (by simpa using ended)
  · rw [size]
    exact Nat.le_trans List.countP_le_length (Nat.le_of_eq balanced.misses.symm)

/-- At any time a cache has counted exactly the leaves that were reached: a miss, a slot and a call
for every key, and a hit for every other lookup. Settled keys are those whose predicates are done.
Leaves that are not cached, and constants, leave all this alone. -/
theorem cache_accounted {calls : Nat → Call}
    (plain : ∀ caller, ∀ leaf ∈ (calls caller).rule.leaves, leaf.2.Plain)
    (id : RequestId) (context : Json) (history : Trace) (moves : List Move) :
    let traffic := run calls (opened id context history) moves
    let asked := (probes calls (opened id context history) moves).map Prod.snd
    Accounted id asked traffic.state ∧
      (∀ later, traffic.state.request.memo.size ≤
        (run calls traffic later).state.request.memo.size) ∧
      ∀ probe ∈ asked,
        probe.question.sharing = .none ∨ (∃ allowed, probe.question.predicate = .constant allowed) →
          probe.after.request.memo = probe.state.request.memo ∧
            probe.after.trace.lookups id = probe.state.trace.lookups id := by
  intro traffic asked
  have fits := (((plain_invariant calls plain id).opened id context history
    (opened_records id context history)).run (plain_invariant calls plain id) moves).2
  have stands := (((stands_invariant calls id).opened id context history rfl).run
    (stands_invariant calls id) moves).2
  have distinct (more : List Move) := run_balanced plain id context history more
  refine ⟨accounted_of_balanced (run_records calls id context history moves) ?_ ?_, ?_, ?_⟩
  · intro probe member
    obtain ⟨pair, found, rfl⟩ := List.mem_map.mp member
    exact (stands pair found).state
  · rw [List.filterMap_map]
    exact distinct moves
  · intro later
    -- a flight that has settled stays in the memo as it is
    have whole := distinct (moves ++ later)
    rw [run_append] at whole
    refine Memo.size_le (distinct moves).distinct whole.distinct fun key decision found => ?_
    exact run_preserves (fun state => state.request.memo.find? key = some (.settled decision))
      (fun _ _ calm kept => (calm.memo key).trans kept)
      (fun probe waiting => (probe.polled_of_waiting waiting).settled key decision) _ later found
  · intro probe member uncached
    obtain ⟨pair, found, rfl⟩ := List.mem_map.mp member
    obtain ⟨waiting, records, question, single⟩ := fits pair found
    obtain ⟨_, own, stood⟩ := stands pair found
    have unshared : pair.2.question.sharing = .none := by
      rcases uncached with unshared | ⟨allowed, constant⟩
      · exact unshared
      · exact question allowed constant
    have polled := pair.2.polled_of_waiting waiting
    refine ⟨polled.unshared (own ▸ stood) unshared, ?_⟩
    have lookups := pair.2.lookups_unshared question single unshared
    simp only [State.books, polled.keeps.id, own] at lookups
    exact lookups

theorem cache_accounted_dropped :
    let rule := Rule.group 3 .and [.constant 2 true, .leaf 1 (.delayed 10 .allow)]
    let calls := fun _ => Call.evaluate rule .last (.bare "Query" "report")
    let moves := [.poll 0 0, .poll 1 0, .drop 0, .poll 1 10]
    let memo := (run calls (opened 1 .null []) moves).state.request.memo
    (∀ caller, ∀ leaf ∈ (calls caller).rule.leaves, leaf.2.Plain) ∧
      (memo.hits, memo.misses, memo.size) = (1, 1, 1) ∧
      Accounted 1 ((probes calls (opened 1 .null []) moves).map Prod.snd)
        (run calls (opened 1 .null []) moves).state := by
  -- The first caller misses and is dropped while the predicate waits; the second one hits, and the
  -- predicate finishes for it. The constant beside the leaf is never looked up.
  intro rule calls moves memo
  have plain : ∀ caller, ∀ leaf ∈ (calls caller).rule.leaves, leaf.2.Plain := by
    intro caller leaf member allowed constant
    have leaves : (calls caller).rule.leaves =
        [(2, ⟨"allow", .none, .constant true⟩), (1, .delayed 10 .allow)] := rfl
    rw [leaves] at member
    rcases List.mem_pair.mp member with rfl | rfl
    · rfl
    · cases constant
  exact ⟨plain, rfl, (cache_accounted plain 1 .null [] moves).1⟩

end Traffic

end FieldGuard
