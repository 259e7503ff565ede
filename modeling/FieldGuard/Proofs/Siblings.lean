import FieldGuard.Proofs.Consulted
import FieldGuard.Proofs.Series

set_option autoImplicit false

namespace FieldGuard

namespace Guard

variable (guard : Guard) (resolver : Resolver) (visit : Visit) (state : State)

theorem conclude_request (redacts : guard.options.onDeny = .redact) (decision : Decision) :
    (guard.conclude resolver visit decision state).2.request = state.request := by
  unfold conclude refuse
  rw [redacts]
  split <;> rfl

end Guard

namespace Call

def verdict (call : Call) (answer : RuleId → Evidence → Decision) (context : Json) : Decision :=
  call.rule.verdict call.precedence fun id => answer id (call.access.evidence context)

def slots (call : Call) (answer : RuleId → Evidence → Decision) (context : Json) : List Slot :=
  call.rule.slots call.precedence (fun id => answer id (call.access.evidence context)) call.access

variable {questions : RuleId → Question} {answer : RuleId → Evidence → Decision}
  {request : RequestId} {context : Json} (guard : Guard) (access : FieldAccess)
  (resolver : Resolver) (now : Nat) {state : State}

theorem poll_predictable (redacts : guard.options.onDeny = .redact)
    (predictable : (guard.selected access).1.Predictable questions answer)
    (foretells : state.Foretells questions answer request context) :
    guard.Delivers resolver ((resolve guard access resolver).verdict answer context)
        ((resolve guard access resolver).poll now .fresh state).1 ∧
      ((resolve guard access resolver).poll now .fresh state).2.Foretells questions answer request
        context ∧
      ((resolve guard access resolver).probes now .fresh state).filterMap Probe.booked? =
        ((resolve guard access resolver).slots answer context).map (Slot.entry request) := by
  have admitted : (Stage.fresh.isFresh && state.request.cancelled) = false := by
    simp [foretells.running]
  have entered := foretells.congr
    (guard.entered_request (Guard.authorizing (guard.visit now access)) .fresh state)
  have booked := predictable.probes_booked (Guard.authorizing (guard.visit now access)) _ entered
  obtain ⟨settled, held⟩ := (guard.selected access).1.poll_verdict
    (Guard.authorizing (guard.visit now access)) (fun id => answer id (access.evidence context))
    (State.Foretells questions answer request context)
    (predictable.leaf (Guard.authorizing (guard.visit now access))) _ entered
  obtain ⟨later, after, polled, poll⟩ :=
    poll_admitted now .fresh state guard access resolver .fresh rfl admitted
  rw [polled] at settled held
  rw [probes_admitted now .fresh state guard access resolver .fresh rfl admitted]
  rcases poll with ⟨decision, rfl, concluded⟩ | ⟨waiting, _⟩
  · obtain rfl : decision = (resolve guard access resolver).verdict answer context :=
      Stage.settled.inj settled
    rw [concluded]
    refine ⟨guard.conclude_delivers resolver _ _ _, held.congr ?_, booked⟩
    exact (guard.conclude_request resolver _ _ redacts _).trans (Guard.left_request _ _ _)
  · cases (congrArg Stage.decision? settled).symm.trans waiting

end Call

namespace Traffic

variable {guard : Guard} {fields : Nat → FieldAccess × Resolver} {questions : RuleId → Question}
  {answer : RuleId → Evidence → Decision} {request : RequestId} {context : Json}
  {traffic : Traffic}

def booked (calls : Nat → Call) (traffic : Traffic) (moves : List Move) :
    List (RuleId × Option Key) :=
  (probes calls traffic moves).filterMap (·.2.booked?)

theorem booked_append (calls : Nat → Call) (traffic : Traffic) (moves rest : List Move) :
    booked calls traffic (moves ++ rest) =
      booked calls traffic moves ++ booked calls (run calls traffic moves) rest := by
  rw [booked, probes_append, List.filterMap_append]
  rfl

theorem step_delivered {caller : Nat} {decision : Decision}
    (delivers : guard.Delivers (fields caller).2 decision (traffic.works caller))
    (foretells : traffic.state.Foretells questions answer request context) (move : Move)
    (own : move.isOf caller = true) :
    guard.Delivers (fields caller).2 decision
        ((step (guard.serves fields) traffic move).works caller) ∧
      (step (guard.serves fields) traffic move).state.Foretells questions answer request context ∧
      asked (guard.serves fields) traffic move = [] := by
  cases move with
  | drop other => cases own
  | cancel => cases own
  | elsewhere records => exact ⟨delivers, foretells.congr rfl, rfl⟩
  | poll other now =>
    obtain rfl : other = caller := by simpa [Move.isOf] using own
    have polled : guard.Delivers (fields other).2 decision
          ((guard.serves fields other).poll now (traffic.works other) traffic.state).1 ∧
        ((guard.serves fields other).poll now (traffic.works other) traffic.state).2 =
          traffic.state :=
      delivers.poll now
    have unasked : (guard.serves fields other).probes now (traffic.works other) traffic.state = [] :=
      delivers.unasked now
    simp only [step, Function.update_self, polled.2, asked, unasked]
    exact ⟨polled.1, foretells, rfl⟩

/-- What becomes of a field, and what its leaves have left in the books by then. -/
structure Resolves (guard : Guard) (fields : Nat → FieldAccess × Resolver)
    (questions : RuleId → Question) (answer : RuleId → Evidence → Decision) (request : RequestId)
    (context : Json) (caller : Nat) (entries : List (RuleId × Option Key)) (after : Traffic) :
    Prop where
  delivers : guard.Delivers (fields caller).2 ((guard.serves fields caller).verdict answer context)
    (after.works caller)
  foretells : after.state.Foretells questions answer request context
  booked : entries =
    ((guard.serves fields caller).slots answer context).map (Slot.entry request)

theorem Resolves.run {caller : Nat} {entries : List (RuleId × Option Key)} (traffic : Traffic)
    (resolves : Resolves guard fields questions answer request context caller entries traffic)
    (moves : List Move) (own : ∀ move ∈ moves, move.isOf caller = true) :
    Resolves guard fields questions answer request context caller
      (entries ++ Traffic.booked (guard.serves fields) traffic moves)
      (Traffic.run (guard.serves fields) traffic moves) := by
  induction moves generalizing traffic with
  | nil =>
    rw [Traffic.booked, probes, List.filterMap_nil, List.append_nil]
    exact resolves
  | cons move rest ih =>
    obtain ⟨later, kept, unasked⟩ :=
      step_delivered resolves.delivers resolves.foretells move (own move List.mem_cons_self)
    have final := ih (step (guard.serves fields) traffic move) ⟨later, kept, resolves.booked⟩
      fun other member => own other (List.mem_cons_of_mem _ member)
    rwa [Traffic.booked, probes, unasked]

section

variable (redacts : guard.options.onDeny = .redact)
  (predictable : ∀ caller, (guard.serves fields caller).rule.Predictable questions answer)

include redacts predictable

theorem run_resolves (caller : Nat) (traffic : Traffic)
    (foretells : traffic.state.Foretells questions answer request context)
    (fresh : traffic.works caller = .fresh) (moves : List Move)
    (own : ∀ move ∈ moves, move.isOf caller = true)
    (done : ∃ answer, (run (guard.serves fields) traffic moves).works caller = .done answer) :
    Resolves guard fields questions answer request context caller
      (booked (guard.serves fields) traffic moves) (run (guard.serves fields) traffic moves) := by
  induction moves generalizing traffic with
  | nil =>
    obtain ⟨answer, done⟩ := done
    exact absurd (fresh.symm.trans done) (by simp)
  | cons move rest ih =>
    have others := fun other member => own other (List.mem_cons_of_mem _ member)
    have own := own move List.mem_cons_self
    cases move with
    | drop other => cases own
    | cancel => cases own
    | elsewhere records =>
      exact ih (step (guard.serves fields) traffic (.elsewhere records)) (foretells.congr rfl) fresh
        others done
    | poll other now =>
      -- the first poll decides the field, and those after it ask no leaf
      obtain rfl : other = caller := by simpa [Move.isOf] using own
      obtain ⟨delivers, kept, first⟩ := Call.poll_predictable guard (fields other).1
        (fields other).2 now redacts (predictable other) foretells
      rw [← fresh] at delivers kept first
      have resolved : Resolves guard fields questions answer request context other
          (((guard.serves fields other).probes now (traffic.works other)
            traffic.state).filterMap Probe.booked?)
          (step (guard.serves fields) traffic (.poll other now)) := by
        refine ⟨?_, kept, first⟩
        simp only [step, Function.update_self]
        exact delivers
      have final := resolved.run _ rest others
      rw [booked, probes, List.filterMap_append, asked, List.filterMap_map]
      exact final

theorem Series.resolves {turns : List Turn} (series : Series (guard.serves fields) traffic turns)
    (foretells : traffic.state.Foretells questions answer request context) :
    (after (guard.serves fields) traffic turns).state.Foretells questions answer request context ∧
      (∀ turn ∈ turns, (after (guard.serves fields) traffic turns).works turn.caller =
        .done (.result (guard.outcome (fields turn.caller).2
          ((guard.serves fields turn.caller).verdict answer context)))) ∧
      booked (guard.serves fields) traffic (turns.flatMap Turn.moves) =
        ((turns.map Turn.caller).flatMap fun caller =>
          (guard.serves fields caller).slots answer context).map (Slot.entry request) := by
  induction turns generalizing traffic with
  | nil => exact ⟨foretells, by simp, rfl⟩
  | cons turn rest ih =>
    cases series with
    | cons _ _ _ fresh own done later =>
      have resolved := run_resolves redacts predictable turn.caller traffic foretells fresh turn.moves
        own done
      obtain ⟨answered, done⟩ := done
      have delivers := resolved.delivers
      rw [done] at delivers
      obtain ⟨held, results, entries⟩ := ih later resolved.foretells
      rw [after_cons]
      refine ⟨held, fun other member => ?_, ?_⟩
      · rcases List.mem_cons.mp member with rfl | inside
        · rw [← delivers.result]
          exact run_done _ _ _ _ _ done
        · exact results other inside
      · rw [List.flatMap_cons, booked_append, resolved.booked, entries, List.map_cons,
          List.flatMap_cons, List.map_append]

theorem Series.sums {history : Trace} {turns : List Turn}
    (series : Series (guard.serves fields) (opened request context history) turns) :
    (after (guard.serves fields) (opened request context history) turns).state.books.Sums request
      ((turns.map Turn.caller).flatMap fun caller =>
        (guard.serves fields caller).slots answer context) := by
  have entries := (series.resolves redacts predictable
    (opened_foretold questions answer (guard.serves fields) request context history).state).2.2
  have books := run_books (guard.serves fields) (fun caller => (predictable caller).plain) request
    context history (turns.flatMap Turn.moves)
  rw [← booked, entries] at books
  exact books ▸ Books.sums_of_slots request _

end

/-- Two requests that have the same in their caches, each under keys of its own. -/
structure Alike (request other : RequestId) (first second : State) : Prop where
  hits : first.request.memo.hits = second.request.memo.hits
  misses : first.request.memo.misses = second.request.memo.misses
  size : first.request.memo.size = second.request.memo.size
  decisions : ∀ rule input, first.request.memo.find? ⟨request, rule, input⟩ =
    second.request.memo.find? ⟨other, rule, input⟩
  own : ∀ key ∈ first.request.memo.keys, key.request = request
  further : ∀ key ∈ second.request.memo.keys, key.request = other
  called : ∀ rule, (first.trace.callsOn request).countP (·.1 = rule) =
    (second.trace.callsOn other).countP (·.1 = rule)

theorem alike_of_slots {other : RequestId} {first second : State} {slots permuted : List Slot}
    (foretells : first.Foretells questions answer request context)
    (foretold : second.Foretells questions answer other context)
    (sums : first.books.Sums request slots) (further : second.books.Sums other permuted)
    (perm : slots.Perm permuted)
    (known : ∀ keyed : RuleId × Option (List Char), (keyed.1, some keyed.2) ∈ slots →
      ∃ access : FieldAccess, access.input? (questions keyed.1).sharing = some keyed.2) :
    Alike request other first second := by
  obtain ⟨hits, misses, called⟩ := sums.perm further perm
  have also : ∀ keyed : RuleId × Option (List Char), (keyed.1, some keyed.2) ∈ permuted →
      ∃ access : FieldAccess, access.input? (questions keyed.1).sharing = some keyed.2 :=
    fun keyed member => known keyed (perm.mem_iff.mpr member)
  have size : first.request.memo.size = second.request.memo.size := by
    rw [foretells.size_eq sums known, foretold.size_eq further also]
    exact misses
  refine ⟨hits, misses, size, fun rule input => ?_, ?_, ?_, ?_⟩
  · by_cases member : (rule, some input) ∈ slots
    · obtain ⟨access, shown⟩ := known (rule, input) member
      exact (foretells.find?_slot sums (rule, input) member access shown).trans
        (foretold.find?_slot further (rule, input) (perm.mem_iff.mp member) access shown).symm
    · exact (State.find?_unslotted sums (rule, input) member).trans
        (State.find?_unslotted further (rule, input) (perm.mem_iff.not.mp member)).symm
  · intro key member
    obtain ⟨keyed, _, rfl⟩ := List.mem_map.mp (sums.keys.mem_iff.mp member)
    rfl
  · intro key member
    obtain ⟨keyed, _, rfl⟩ := List.mem_map.mp (further.keys.mem_iff.mp member)
    rfl
  · simpa only [State.books, foretells.id, foretold.id] using called

/-- Fields under predictable rules, resolved one after another under `redact`: on two requests with
the same context, each field comes to the same result whatever the order of the fields, and the
requests are left with the same in their caches. -/
theorem siblings_commute (questions : RuleId → Question) (answer : RuleId → Evidence → Decision)
    (redacts : guard.options.onDeny = .redact)
    (predictable : ∀ caller, (guard.serves fields caller).rule.Predictable questions answer)
    (request other : RequestId) (context : Json) (history past : Trace) (turns permuted : List Turn)
    (perm : (turns.map Turn.caller).Perm (permuted.map Turn.caller))
    (series : Series (guard.serves fields) (opened request context history) turns)
    (reordered : Series (guard.serves fields) (opened other context past) permuted) :
    let first := after (guard.serves fields) (opened request context history) turns
    let second := after (guard.serves fields) (opened other context past) permuted
    (∀ turn ∈ turns, ∃ result, first.works turn.caller = .done (.result result) ∧
        second.works turn.caller = .done (.result result)) ∧
      Alike request other first.state second.state := by
  intro first second
  obtain ⟨foretells, results, _⟩ := series.resolves redacts predictable
    (opened_foretold questions answer (guard.serves fields) request context history).state
  obtain ⟨foretold, others, _⟩ := reordered.resolves redacts predictable
    (opened_foretold questions answer (guard.serves fields) other context past).state
  refine ⟨fun turn member => ⟨_, results turn member, ?_⟩, ?_⟩
  -- the same caller has a turn in the other order
  · obtain ⟨further, found, same⟩ := List.mem_map.mp (perm.mem_iff.mp (List.mem_map_of_mem member))
    rw [← same]
    exact others further found
  · refine alike_of_slots foretells foretold (series.sums redacts predictable)
      (reordered.sums redacts predictable) (perm.flatMap_right _) fun keyed member => ?_
    obtain ⟨caller, _, inside⟩ := List.mem_flatMap.mp member
    exact ⟨_, Rule.input_of_mem_slots (predictable caller).named inside⟩

theorem siblings_commute_reversed :
    let draft := fun (evidence : Evidence) =>
      if evidence.parent.sorted.text = Json.null.text then Decision.allow else .deny (some "draft")
    let first : Question := ⟨"draft", .strict, .custom fun _ evidence _ => .settle (draft evidence)⟩
    let second : Question := ⟨"audit", .contextual, .custom fun _ _ _ => .panic "no audit"⟩
    let guard : Guard :=
      { table := ⟨[], [], some (.group 3 .or [.leaf 1 first, .leaf 2 second]), .deny, .constant 0 false⟩
        options := ⟨.redact, .last, "not authorized", "internal error"⟩ }
    let fields : Nat → FieldAccess × Resolver := fun caller =>
      (⟨⟨"Query", "report", []⟩, if caller = 1 then .null else .bool true, .null⟩, ⟨0, .ok .null⟩)
    let questions := fun (id : RuleId) => if id = 1 then first else second
    let answer := fun (id : RuleId) (evidence : Evidence) =>
      if id = 1 then draft evidence else .error (.panicked "audit" "no audit")
    let turns : List Turn := [⟨0, [.poll 0 0]⟩, ⟨1, [.poll 1 0]⟩, ⟨2, [.poll 2 5]⟩]
    let reversed : List Turn := [⟨2, [.poll 2 0]⟩, ⟨1, [.poll 1 1]⟩, ⟨0, [.poll 0 2]⟩]
    (∀ caller, (guard.serves fields caller).rule.Predictable questions answer) ∧
      (turns.map Turn.caller).Perm (reversed.map Turn.caller) ∧
      Series (guard.serves fields) (opened 1 .null []) turns ∧
      Series (guard.serves fields) (opened 2 .null []) reversed ∧
      Alike 1 2 (after (guard.serves fields) (opened 1 .null []) turns).state
        (after (guard.serves fields) (opened 2 .null []) reversed).state := by
  -- The first field to be denied misses the cache and the other one hits it, in either order; the
  -- field between them does not get to the second leaf.
  intro draft first second guard fields questions answer turns reversed
  have leaves (caller : Nat) : (guard.serves fields caller).rule.leaves = [(1, first), (2, second)] :=
    rfl
  have predictable : ∀ caller, (guard.serves fields caller).rule.Predictable questions answer := by
    intro caller
    refine ⟨?_, ?_, ?_, ?_⟩
    · intro leaf member
      rw [leaves] at member
      rcases List.mem_pair.mp member with rfl | rfl <;> rfl
    · intro leaf member allowed constant
      rw [leaves] at member
      rcases List.mem_pair.mp member with rfl | rfl <;> cases constant
    · intro leaf member
      rw [leaves] at member
      rcases List.mem_pair.mp member with rfl | rfl <;> exact fun _ _ _ => rfl
    · intro leaf member
      rw [leaves] at member
      rcases List.mem_pair.mp member with rfl | rfl
      · intro one other _ parent _
        simp [answer, draft, parent]
      · exact fun _ _ _ => rfl
  have perm : (turns.map Turn.caller).Perm (reversed.map Turn.caller) := by decide
  have series : Series (guard.serves fields) (opened 1 .null []) turns :=
    series_of_serial (by decide +kernel)
  have reordered : Series (guard.serves fields) (opened 2 .null []) reversed :=
    series_of_serial (by decide +kernel)
  exact ⟨predictable, perm, series, reordered, (siblings_commute questions answer rfl predictable 1 2
    .null [] [] turns reversed perm series reordered).2⟩

end Traffic

end FieldGuard
