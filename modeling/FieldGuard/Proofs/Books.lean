import FieldGuard.Proofs.Freezing
import Mathlib.Data.List.Dedup
import Mathlib.Data.List.Nodup
import Mathlib.Data.List.Perm.Subperm

set_option autoImplicit false

namespace FieldGuard

structure State.Still (before after : State) : Prop where
  id : after.request.id = before.request.id
  memo : after.request.memo = before.request.memo
  trace : ∃ records, after.trace = before.trace ++ records ∧
    ∀ record ∈ records, record.request = before.request.id → record.event.concernsLeaf = false

namespace State

theorem Rests.still {before after : State} (rests : before.Rests after) : before.Still after :=
  ⟨by rw [rests.request], by rw [rests.request], rests.trace⟩

theorem still_refl (state : State) : state.Still state := state.rests_refl.still

theorem Still.trans {before middle after : State} (first : before.Still middle)
    (second : middle.Still after) : before.Still after where
  id := second.id.trans first.id
  memo := second.memo.trans first.memo
  trace := by
    obtain ⟨records, same, still⟩ := first.trace
    obtain ⟨others, later, further⟩ := second.trace
    refine ⟨records ++ others, by rw [later, same, List.append_assoc], ?_⟩
    intro record member own
    rcases List.mem_append.mp member with here | there
    · exact still record here own
    · exact further record there (own.trans first.id.symm)

end State

namespace Guard

variable (guard : Guard) (resolver : Resolver) (visit : Visit) (state : State)

theorem refuse_still (denial : Denial) : state.Still (guard.refuse denial state).2 := by
  unfold refuse
  split
  · exact state.still_refl
  · exact ⟨rfl, rfl, state.still_refl.trace⟩

theorem conclude_still (decision : Decision) :
    state.Still (guard.conclude resolver visit decision state).2 := by
  unfold conclude
  split
  · exact (state.rests_record visit _ rfl).still
  · exact (state.rests_record visit _ rfl).still.trans (guard.refuse_still _ _)
  · exact state.still_refl
  · exact (state.rests_record visit _ rfl).still.trans (guard.refuse_still _ _)

end Guard

theorem Call.poll_linked (now : Nat) (call : Call) (work : Work) (state : State) :
    ∃ entered left, state.Still entered ∧ Probe.Linked entered (call.probes now work state) left ∧
      left.Still (call.poll now work state).2 := by
  rcases work.done_or_waiting with ⟨answer, rfl⟩ | waiting
  · refine ⟨state, state, state.still_refl, ?_, ?_⟩
    · simp [probes, reached_done, Probe.Linked]
    · rw [poll_done]
      exact state.still_refl
  cases call with
  | evaluate rule precedence access =>
    rw [poll_evaluate now work state rule precedence access waiting]
    simp only [probes, reached_evaluate work rule precedence access waiting]
    exact ⟨state, _, state.still_refl, Rule.poll_linked _ _ _ _, State.still_refl _⟩
  | check guard access =>
    rw [poll_check now work state guard access waiting, Guard.pollCheck_eq]
    simp only [probes, reached_check work guard access waiting]
    exact ⟨_, _, (guard.entered_rests _ work.stage state).still, Rule.poll_linked _ _ _ _,
      (Guard.left_rests _ _ _).still⟩
  | resolve guard access resolver =>
    rcases resolve_cases now work state guard access resolver with
      ⟨unasked, same, _⟩ | ⟨stage, reached, admitted⟩
    · rw [unasked, same]
      exact ⟨state, state, state.still_refl, rfl, state.still_refl⟩
    · have linked := (guard.selected access).1.poll_linked (Guard.authorizing (guard.visit now access))
        stage (guard.entered (Guard.authorizing (guard.visit now access)) stage state)
      obtain ⟨later, after, polled, poll⟩ :=
        poll_admitted now work state guard access resolver stage reached admitted
      rw [probes_admitted now work state guard access resolver stage reached admitted]
      rw [polled] at linked
      refine ⟨_, after, (guard.entered_rests _ stage state).still, linked, ?_⟩
      rcases poll with ⟨decision, rfl, concluded⟩ | ⟨_, authorizing⟩
      · rw [concluded]
        exact (Guard.left_rests _ _ _).still.trans (guard.conclude_still resolver _ _ decision)
      · rw [authorizing]
        exact after.still_refl

namespace Memo

def keys (memo : Memo) : List Key := memo.flights.map Prod.fst

variable (memo : Memo) (key : Key) (flight : Flight)

@[simp] theorem keys_hit : memo.hit.keys = memo.keys := rfl

@[simp] theorem keys_insert : (memo.insert key flight).keys = memo.keys ++ [key] := by
  simp [keys, insert]

@[simp] theorem keys_replace : (memo.replace key flight).keys = memo.keys := by
  simp only [keys, replace, List.map_map]
  refine List.map_congr_left fun entry _ => ?_
  simp only [Function.comp_apply]
  split
  · next same => exact same.symm
  · rfl

@[simp] theorem hits_replace : (memo.replace key flight).hits = memo.hits := rfl

@[simp] theorem misses_replace : (memo.replace key flight).misses = memo.misses := rfl

theorem find?_isSome_iff : (memo.find? key).isSome = true ↔ key ∈ memo.keys := by
  simp only [find?, keys]
  induction memo.flights with
  | nil => simp
  | cons entry rest ih =>
    obtain ⟨found, flight⟩ := entry
    rw [lookup_cons_eq, List.map_cons, List.mem_cons]
    by_cases same : key = found
    · simp [same]
    · simp [same, ih]

end Memo

namespace Trace

def lookups (trace : Trace) (request : RequestId) : List (Key × Bool) :=
  trace.filterMap fun record =>
    match record.event with
    | .lookup key _ _ hit => if record.request = request then some (key, hit) else none
    | _ => none

def callsOn (trace : Trace) (request : RequestId) : List (RuleId × Option Key) :=
  trace.filterMap fun record =>
    match record.event with
    | .predicate id _ key .called => if record.request = request then some (id, key) else none
    | _ => none

variable (trace records : Trace) (request : RequestId)

@[simp] theorem lookups_append :
    lookups (trace ++ records) request = trace.lookups request ++ records.lookups request :=
  List.filterMap_append

@[simp] theorem callsOn_append :
    callsOn (trace ++ records) request = trace.callsOn request ++ records.callsOn request :=
  List.filterMap_append

variable {records request}

theorem lookups_silent (silent : ∀ record ∈ records, record.request = request →
    record.event.concernsLeaf = false) : records.lookups request = [] := by
  rw [lookups, List.filterMap_eq_nil_iff]
  intro record member
  have silent := silent record member
  split
  · next event =>
    rw [event] at silent
    rw [if_neg fun own => Bool.noConfusion (silent own)]
  · rfl

theorem callsOn_silent (silent : ∀ record ∈ records, record.request = request →
    record.event.concernsLeaf = false) : records.callsOn request = [] := by
  rw [callsOn, List.filterMap_eq_nil_iff]
  intro record member
  have silent := silent record member
  split
  · next event =>
    rw [event] at silent
    rw [if_neg fun own => Bool.noConfusion (silent own)]
  · rfl

end Trace

structure Books where
  keys : List Key
  hits : Nat
  misses : Nat
  lookups : List (Key × Bool)
  calls : List (RuleId × Option Key)

namespace Books

def empty : Books := { keys := [], hits := 0, misses := 0, lookups := [], calls := [] }

def enter (books : Books) : RuleId × Option Key → Books
  | (id, none) => { books with calls := books.calls ++ [(id, none)] }
  | (id, some key) =>
      if key ∈ books.keys then
        { books with
          hits := books.hits + 1
          lookups := books.lookups ++ [(key, true)] }
      else
        { books with
          keys := books.keys ++ [key]
          misses := books.misses + 1
          lookups := books.lookups ++ [(key, false)]
          calls := books.calls ++ [(id, some key)] }

def enterAll (books : Books) (entries : List (RuleId × Option Key)) : Books :=
  entries.foldl enter books

structure Balanced (books : Books) (entries : List (RuleId × Option Key)) : Prop where
  distinct : books.keys.Nodup
  known : ∀ key, key ∈ books.keys ↔ key ∈ entries.filterMap Prod.snd
  hits : books.hits = books.lookups.countP (·.2)
  misses : books.misses = books.keys.length
  looked : books.lookups.map Prod.fst = entries.filterMap Prod.snd
  missed : (books.lookups.filter (!·.2)).map Prod.fst = books.keys
  called : books.calls.filterMap Prod.snd = books.keys

theorem balanced_empty : empty.Balanced [] :=
  ⟨.nil, fun _ => Iff.rfl, rfl, rfl, rfl, rfl, rfl⟩

theorem Balanced.enter {books : Books} {entries : List (RuleId × Option Key)}
    (balanced : books.Balanced entries) (entry : RuleId × Option Key) :
    (books.enter entry).Balanced (entries ++ [entry]) := by
  obtain ⟨distinct, known, hits, misses, looked, missed, called⟩ := balanced
  rcases entry with ⟨id, _ | key⟩
  · exact ⟨distinct, by simpa [Books.enter] using known, hits, misses,
      by simpa [Books.enter] using looked, missed, by simpa [Books.enter] using called⟩
  · have further (other : Key) : other ∈ (entries ++ [(id, some key)]).filterMap Prod.snd ↔
        other ∈ books.keys ∨ other = key := by
      rw [List.filterMap_append, List.mem_append, ← known other]
      simp
    by_cases member : key ∈ books.keys
    · simp only [Books.enter, member, if_true]
      refine ⟨distinct, fun other => ?_, by simp [hits], misses, by simp [looked], by simp [missed],
        called⟩
      rw [further, or_iff_left_of_imp]
      rintro rfl
      exact member
    · simp only [Books.enter, member, if_false]
      refine ⟨?_, fun other => ?_, by simp [hits], by simp [misses], by simp [looked],
        by simp [missed], by simp [called]⟩
      · exact distinct.append (List.nodup_singleton key) (List.disjoint_singleton.mpr member)
      · rw [further, List.mem_append, List.mem_singleton]

theorem Balanced.enterAll {books : Books} {entries : List (RuleId × Option Key)}
    (balanced : books.Balanced entries) (others : List (RuleId × Option Key)) :
    (books.enterAll others).Balanced (entries ++ others) := by
  induction others generalizing books entries with
  | nil => simpa [Books.enterAll] using balanced
  | cons entry rest ih => simpa [Books.enterAll] using ih (balanced.enter entry)

section

variable {books : Books} {entries : List (RuleId × Option Key)} (balanced : books.Balanced entries)

include balanced

theorem Balanced.missRecords : books.misses = books.lookups.countP fun entry => !entry.2 := by
  rw [balanced.misses, ← balanced.missed, List.length_map, List.countP_eq_length_filter]

theorem Balanced.total : books.hits + books.misses = (entries.filterMap Prod.snd).length := by
  rw [balanced.hits, balanced.missRecords, ← balanced.looked, List.length_map,
    List.length_eq_countP_add_countP fun entry : Key × Bool => entry.2]
  simp

theorem Balanced.missedOnce (key : Key) : books.lookups.count (key, false) ≤ 1 := by
  calc books.lookups.count (key, false)
    _ = (books.lookups.filter (!·.2)).count (key, false) := (List.count_filter (by rfl)).symm
    _ ≤ ((books.lookups.filter (!·.2)).map Prod.fst).count key :=
        List.count_le_count_map (f := Prod.fst)
    _ ≤ 1 := balanced.missed ▸ List.nodup_iff_count_le_one.mp balanced.distinct key

theorem Balanced.keys_perm : books.keys.Perm (entries.filterMap Prod.snd).dedup :=
  (List.perm_ext_iff_of_nodup balanced.distinct (List.nodup_dedup _)).mpr fun key => by
    rw [List.mem_dedup]
    exact balanced.known key

end

end Books

namespace State

def books (state : State) : Books where
  keys := state.request.memo.keys
  hits := state.request.memo.hits
  misses := state.request.memo.misses
  lookups := state.trace.lookups state.request.id
  calls := state.trace.callsOn state.request.id

theorem Still.books {before after : State} (still : before.Still after) :
    after.books = before.books := by
  obtain ⟨id, memo, records, trace, silent⟩ := still
  simp only [State.books, id, memo, trace, Trace.lookups_append, Trace.callsOn_append,
    Trace.lookups_silent silent, Trace.callsOn_silent silent, List.append_nil]

end State

def Question.Plain (question : Question) : Prop :=
  ∀ allowed, question.predicate = .constant allowed → question.sharing = .none

/-- What a leaf that is asked enters in the books: nothing unless it is reached before its request
is cancelled, and a constant nothing at all. -/
def Probe.booked? (probe : Probe) : Option (RuleId × Option Key) :=
  if probe.state.request.cancelled || !probe.stage.isFresh then none
  else
    match Key.of? probe.question.sharing probe.id probe.state.request.id probe.visit.access,
      probe.question.predicate with
    | some key, _ => some (probe.id, some key)
    | none, .custom _ => some (probe.id, none)
    | none, .constant _ => none

namespace Process

variable (rule : String) (moment : Moment)

theorem continue_uncalled (process : Process) : .called ∉ (process.continue rule moment).1 := by
  induction process with
  | settle decision => simp [Process.continue]
  | panic message => simp [Process.continue]
  | wait pause resume ih =>
    simp only [Process.continue]
    split
    · simp
    · simpa using ih moment

theorem start_called (process : Process) :
    ∃ rest, (process.start rule moment).1 = .called :: rest ∧ .called ∉ rest := by
  cases process with
  | settle decision => exact ⟨_, rfl, continue_uncalled rule moment (.settle decision)⟩
  | panic message => exact ⟨_, rfl, continue_uncalled rule moment (.panic message)⟩
  | wait pause resume =>
    simp only [Process.start]
    split
    · exact ⟨[], rfl, by simp⟩
    · exact ⟨_, rfl, continue_uncalled rule moment (resume moment)⟩

end Process

theorem Flight.poll_uncalled (rule : String) (moment : Moment) (flight : Flight) :
    .called ∉ (flight.poll rule moment).1 := by
  cases flight with
  | settled decision => simp [Flight.poll]
  | suspended suspension resume =>
    simp only [Flight.poll]
    split
    · exact Process.continue_uncalled rule moment (resume moment)
    · simp

namespace Question

variable (question : Question) (id : RuleId) (visit : Visit) (state : State)

theorem recordAll_lookups (key : Option Key) (found : List Activity) :
    (state.recordAll visit (question.activities id key found)).trace.lookups state.request.id =
      state.trace.lookups state.request.id := by
  simp only [State.recordAll, Trace.lookups_append, List.append_right_eq_self]
  simp [Trace.lookups, activities, Function.comp_def]

theorem recordAll_callsOn (key : Option Key) (found : List Activity) :
    (state.recordAll visit (question.activities id key found)).trace.callsOn state.request.id =
      state.trace.callsOn state.request.id ++ List.replicate (found.count .called) (id, key) := by
  simp only [State.recordAll, Trace.callsOn_append, List.append_cancel_left_eq]
  simp only [Trace.callsOn, activities, List.map_map, List.filterMap_map, Function.comp_def, if_true]
  induction found with
  | nil => rfl
  | cons activity rest ih =>
    rw [List.filterMap_cons, ih]
    cases activity <;> simp [List.replicate_succ]

theorem resume_books (key : Option Key) (flight : Flight) :
    (question.resume id key visit flight state).2.books = state.books := by
  rw [resume_eq]
  simp only [State.books, State.recordAll_request, recordAll_lookups, recordAll_callsOn,
    List.count_eq_zero.mpr (flight.poll_uncalled question.name (state.moment visit)),
    List.replicate_zero, List.append_nil]

theorem record_books (event : Event)
    (silent : ∀ id name key activity, event ≠ .predicate id name key activity) :
    (state.record visit event).books =
      { state.books with lookups := state.books.lookups ++
          match event with
          | .lookup key _ _ hit => [(key, hit)]
          | _ => [] } := by
  simp only [State.books, State.record_request, Books.mk.injEq, true_and]
  simp only [State.record, Trace.lookups_append, Trace.callsOn_append, List.append_right_eq_self,
    List.append_cancel_left_eq]
  cases event with
  | predicate id name key activity => exact absurd rfl (silent id name key activity)
  | lookup key name sharing hit => simp [Trace.lookups, Trace.callsOn]
  | _ => exact ⟨rfl, rfl⟩

theorem launch_books (key : Option Key) (invoke : Nat → Evidence → Moment → Process)
    (custom : question.predicate = .custom invoke) :
    (question.launch id key visit state).2.books =
      { state.books with calls := state.books.calls ++ [(id, key)] } := by
  rcases question.launch_eq id visit key state with
    ⟨allowed, predicate, launched⟩ | ⟨_, invocation, evidence, _, started, rfl, launched⟩
  · rw [custom] at predicate
    cases predicate
  · have entered := record_books visit state
      (.invoking question.name visit.access.site.display) (by simp)
    obtain ⟨rest, called, uncalled⟩ := Process.start_called question.name (state.moment visit) (_ : Process)
    rw [launched, State.books, State.recordAll_request, recordAll_lookups, recordAll_callsOn, called,
      List.count_cons_self, List.count_eq_zero.mpr uncalled]
    simpa [State.books] using entered

theorem launch_constant (key : Option Key) (allowed : Bool)
    (constant : question.predicate = .constant allowed) :
    (question.launch id key visit state).2.books = state.books := by
  simp only [launch, constant]

theorem pollShared_books (key : Key) :
    (question.pollShared id visit key state).2.books = state.books := by
  unfold pollShared
  split
  · next flight found =>
    have resumed := question.resume_books id visit state (some key) flight
    rw [← resumed]
    simp [State.books, resume_eq]
  · rfl

omit question id visit in
theorem hit_books :
    (state.withMemo state.request.memo.hit).books =
      { state.books with hits := state.books.hits + 1 } :=
  rfl

omit question id visit in
theorem insert_books (key : Key) (flight : Flight) :
    (state.withMemo (state.request.memo.insert key flight)).books =
      { state.books with
        keys := state.books.keys ++ [key]
        misses := state.books.misses + 1 } := by
  simp only [State.books, State.withMemo_memo, Memo.keys_insert]
  rfl

theorem join_books (key : Key) (invoke : Nat → Evidence → Moment → Process)
    (custom : question.predicate = .custom invoke) :
    (question.join id visit key state).2.books = state.books.enter (id, some key) := by
  have known := state.request.memo.find?_isSome_iff key
  have looked (hit : Bool) := record_books visit state
    (.lookup key question.name question.sharing hit) (by simp)
  unfold join
  cases found : state.request.memo.find? key with
  | some flight =>
    have member : key ∈ state.books.keys := known.mp (by rw [found]; rfl)
    simp only [Option.isSome_some, if_true, pollShared_books, hit_books, looked, Books.enter, member]
  | none =>
    have missing : key ∉ state.books.keys := fun member => by
      have := known.mpr member
      rw [found] at this
      cases this
    simp only [Option.isSome_none, Bool.false_eq_true, if_false, insert_books, looked,
      question.launch_books id visit _ _ invoke custom, Books.enter, missing]

theorem poll_books (stage : Stage) (plain : question.Plain)
    (single : ∀ operands first, stage ≠ .group operands first) :
    (question.poll id visit stage state).2.books =
      (Probe.booked? ⟨visit, id, question, stage, state⟩).elim state.books state.books.enter := by
  unfold poll Probe.booked?
  cases cancelled : state.request.cancelled with
  | true => rfl
  | false =>
    cases stage with
    | group operands first => exact absurd rfl (single operands first)
    | settled decision => rfl
    | own flight => exact question.resume_books id visit state none flight
    | shared key => exact question.pollShared_books id visit state key
    | fresh =>
      simp only [Stage.isFresh, Bool.not_true, Bool.or_self, Bool.false_eq_true, if_false, begin]
      cases predicate : question.predicate with
      | constant allowed =>
        have unknown : Key.of? question.sharing id state.request.id visit.access = none := by
          rw [plain allowed predicate]
          rfl
        simp only [unknown]
        exact question.launch_constant id visit state none allowed predicate
      | custom invoke =>
        cases Key.of? question.sharing id state.request.id visit.access with
        | none => exact question.launch_books id visit state none invoke predicate
        | some key => exact question.join_books id visit state key invoke predicate

end Question

theorem Question.Polled.single {question : Question} {id : RuleId} {visit : Visit}
    {state after : State} {stage later : Stage}
    (polled : question.Polled id visit state stage later after) (operands : List Stage)
    (first : Option Decision) : later ≠ .group operands first := by
  have own (flight : Flight) : ownStage flight ≠ .group operands first := by
    cases flight <;> simp [ownStage]
  have shared (key : Key) (flight : Flight) : sharedStage key flight ≠ .group operands first := by
    cases flight <;> simp [sharedStage]
  induction polled with
  | cancelled state stage cancelled => simp
  | lost state key missing => simp
  | own state flight running => exact own _
  | shared state key flight running found => exact shared _ _
  | joined state looked stage later after key running known calm still polled ih => exact ih
  | launched state looked stage key running known missing calm still => exact shared _ _
  | alone state stage running unknown => exact own _

namespace Probe

theorem Linked.books {start final : State} {probes : List Probe} (linked : Linked start probes final)
    (each : ∀ probe ∈ probes, probe.question.Plain ∧
      ∀ operands first, probe.stage ≠ .group operands first) :
    final.books = start.books.enterAll (probes.filterMap booked?) := by
  induction probes generalizing start with
  | nil =>
    cases linked
    rfl
  | cons probe rest ih =>
    obtain ⟨rfl, linked⟩ := linked
    obtain ⟨plain, single⟩ := each probe List.mem_cons_self
    have polled : probe.after.books = probe.booked?.elim probe.state.books probe.state.books.enter :=
      probe.question.poll_books probe.id probe.visit probe.state probe.stage plain single
    rw [ih linked fun other member => each other (List.mem_cons_of_mem _ member), polled,
      List.filterMap_cons]
    cases probe.booked? <;> rfl

end Probe

namespace Traffic

variable (calls : Nat → Call)

theorem step_linked (traffic : Traffic) (move : Move) :
    ∃ entered left, traffic.state.Still entered ∧
      Probe.Linked entered ((asked calls traffic move).map Prod.snd) left ∧
      left.Still (step calls traffic move).state := by
  cases move with
  | poll caller now =>
    have linked := (calls caller).poll_linked now (traffic.works caller) traffic.state
    simpa [asked, step, Function.comp_def] using linked
  | drop caller => exact ⟨_, _, State.still_refl _, rfl, State.still_refl _⟩
  | cancel => exact ⟨_, _, State.still_refl _, rfl, ⟨rfl, rfl, (State.still_refl _).trace⟩⟩
  | elsewhere records =>
    refine ⟨_, _, State.still_refl _, rfl, ⟨rfl, rfl, _, rfl, ?_⟩⟩
    intro record member own
    simp [own] at member

theorem plain_invariant (plain : ∀ caller, ∀ leaf ∈ (calls caller).rule.leaves, leaf.2.Plain)
    (request : RequestId) :
    Invariant calls (State.Records request) fun _ _ question stage =>
      question.Plain ∧ ∀ operands first, stage ≠ .group operands first where
  calm := fun _ _ calm records => records.calm calm
  fresh := fun caller leaf member => ⟨plain caller leaf member, by simp⟩
  asked := by
    intro probe asked
    have polled := probe.polled_of_waiting asked.waiting
    exact ⟨polled.records asked.state, asked.stage.1, polled.single⟩

theorem run_enters (plain : ∀ caller, ∀ leaf ∈ (calls caller).rule.leaves, leaf.2.Plain)
    {request : RequestId} (traffic : Traffic)
    (sound : Sound calls (State.Records request) (fun _ _ question stage =>
      question.Plain ∧ ∀ operands first, stage ≠ .group operands first) traffic)
    (moves : List Move) :
    (run calls traffic moves).state.books =
      traffic.state.books.enterAll ((probes calls traffic moves).filterMap (·.2.booked?)) := by
  have invariant := plain_invariant calls plain request
  induction moves generalizing traffic with
  | nil => rfl
  | cons move rest ih =>
    obtain ⟨after, fits⟩ := sound.step invariant move
    obtain ⟨entered, left, begun, linked, ended⟩ := step_linked calls traffic move
    have entries := linked.books (by
      intro probe member
      obtain ⟨pair, found, rfl⟩ := List.mem_map.mp member
      exact (fits pair found).stage)
    have stepped : (step calls traffic move).state.books = traffic.state.books.enterAll
        ((asked calls traffic move).filterMap (·.2.booked?)) := by
      rw [ended.books, entries, begun.books, List.filterMap_map]
      rfl
    have later := ih (step calls traffic move) after
    rw [stepped] at later
    simpa [probes, run, Books.enterAll] using later

/-- The books of a request are those of its leaves in the order in which they were asked. -/
theorem run_books (plain : ∀ caller, ∀ leaf ∈ (calls caller).rule.leaves, leaf.2.Plain)
    (id : RequestId) (context : Json) (history : Trace) (moves : List Move) :
    (run calls (opened id context history) moves).state.books =
      Books.empty.enterAll
        ((probes calls (opened id context history) moves).filterMap (·.2.booked?)) := by
  have silent : ∀ record ∈ history.filter (fun record => record.request != id),
      record.request = id → record.event.concernsLeaf = false := by
    intro record member own
    simp [own] at member
  have empty : (opened id context history).state.books = Books.empty := by
    change Books.mk [] 0 0 (Trace.lookups (history.filter _) id)
      (Trace.callsOn (history.filter _) id) = Books.empty
    rw [Trace.lookups_silent silent, Trace.callsOn_silent silent]
    rfl
  rw [← empty]
  exact run_enters calls plain _ ((plain_invariant calls plain id).opened id context history
    (opened_records id context history)) moves

variable {calls}

theorem run_balanced (plain : ∀ caller, ∀ leaf ∈ (calls caller).rule.leaves, leaf.2.Plain)
    (id : RequestId) (context : Json) (history : Trace) (moves : List Move) :
    (run calls (opened id context history) moves).state.books.Balanced
      ((probes calls (opened id context history) moves).filterMap (·.2.booked?)) := by
  rw [run_books calls plain]
  exact Books.balanced_empty.enterAll _

end Traffic

end FieldGuard
