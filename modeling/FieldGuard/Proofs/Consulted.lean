import FieldGuard.Proofs.Accounting
import FieldGuard.Proofs.Transparency
import Mathlib.Data.List.Count

set_option autoImplicit false

namespace FieldGuard

namespace Rule

mutual

/-- The leaves that are asked when all leaves decide at once and have these answers. -/
def consulted (precedence : Precedence) (answer : RuleId → Decision) :
    Rule → List (RuleId × Question)
  | .leaf id question => [(id, question)]
  | .not _ operand => operand.consulted precedence answer
  | .group _ connective operands => consultedOf precedence answer connective operands

def consultedOf (precedence : Precedence) (answer : RuleId → Decision) (connective : Connective) :
    List Rule → List (RuleId × Question)
  | [] => []
  | rule :: rest =>
      rule.consulted precedence answer ++
        if connective.isDecisive (rule.verdict precedence answer) then []
        else consultedOf precedence answer connective rest

end

variable (precedence : Precedence) (answer : RuleId → Decision)

theorem consultedOf_subset (connective : Connective) (rules : List Rule)
    (each : ∀ rule ∈ rules, rule.consulted precedence answer ⊆ rule.leaves) :
    consultedOf precedence answer connective rules ⊆ leavesOf rules := by
  induction rules with
  | nil => exact List.Subset.refl _
  | cons rule rest ih =>
    intro leaf member
    rw [consultedOf, List.mem_append] at member
    rw [leavesOf, List.mem_append]
    rcases member with here | there
    · exact Or.inl (each rule List.mem_cons_self here)
    · split at there
      · cases there
      · exact Or.inr (ih (fun other inside => each other (List.mem_cons_of_mem _ inside)) there)

theorem consulted_subset (rule : Rule) : rule.consulted precedence answer ⊆ rule.leaves := by
  induction rule with
  | leaf id question => exact List.Subset.refl _
  | not id operand ih => exact ih
  | group id connective operands ih => exact consultedOf_subset precedence answer connective operands ih

variable {precedence answer} (visit : Visit) (Holds : State → Prop)

theorem probesOf_consulted (connective : Connective) (rules : List Rule)
    (each : ∀ rule ∈ rules, ∀ state, Holds state →
      (rule.poll visit .fresh state).1 = .settled (rule.verdict visit.precedence answer) ∧
        Holds (rule.poll visit .fresh state).2 ∧
        (rule.probes visit .fresh state).map (fun probe => (probe.id, probe.question)) =
          rule.consulted visit.precedence answer)
    (state : State) (holds : Holds state) :
    (probesOf visit connective rules (List.replicate rules.length .fresh) state).map
        (fun probe => (probe.id, probe.question)) =
      consultedOf visit.precedence answer connective rules := by
  induction rules generalizing state with
  | nil => rfl
  | cons rule rest ih =>
    obtain ⟨settled, held, own⟩ := each rule List.mem_cons_self state holds
    have others := ih (fun other inside => each other (List.mem_cons_of_mem _ inside)) _ held
    simp only [List.length_cons, List.replicate_succ, probesOf, consultedOf, List.map_append, own,
      settled, Connective.goesOn, Stage.decision?]
    -- every operand decides at once, so the pass stops only at a decisive one
    cases connective.isDecisive (rule.verdict visit.precedence answer) with
    | true => rfl
    | false => exact congrArg _ others

theorem probes_consulted (rule : Rule)
    (each : ∀ leaf ∈ rule.leaves, ∀ state, Holds state →
      (leaf.2.poll leaf.1 visit .fresh state).1 = .settled (answer leaf.1) ∧
        Holds (leaf.2.poll leaf.1 visit .fresh state).2)
    (state : State) (holds : Holds state) :
    (rule.probes visit .fresh state).map (fun probe => (probe.id, probe.question)) =
      rule.consulted visit.precedence answer := by
  induction rule generalizing state with
  | leaf id question => rfl
  | not id operand ih => exact ih each state holds
  | group id connective operands ih =>
    refine probesOf_consulted visit Holds connective operands (fun operand member other held => ?_)
      state holds
    have own : ∀ leaf ∈ operand.leaves, ∀ state, Holds state →
        (leaf.2.poll leaf.1 visit .fresh state).1 = .settled (answer leaf.1) ∧
          Holds (leaf.2.poll leaf.1 visit .fresh state).2 :=
      fun leaf inside => each leaf ((mem_leavesOf operands leaf).mpr ⟨operand, member, inside⟩)
    obtain ⟨settled, kept⟩ := operand.poll_verdict visit answer Holds own other held
    exact ⟨settled, kept, ih operand member own other held⟩

theorem probes_fresh (rule : Rule) (state : State) (probe : Probe)
    (member : probe ∈ rule.probes visit .fresh state) :
    probe.visit = visit ∧ probe.stage = .fresh ∧ (probe.id, probe.question) ∈ rule.leaves := by
  obtain ⟨own, awaited⟩ := mem_probes visit rule .fresh state probe member
  obtain ⟨leaf, fresh⟩ := mem_awaited_fresh rule _ awaited
  exact ⟨own, fresh, leaf⟩

end Rule

def FieldAccess.input? (access : FieldAccess) : Sharing → Option (Option (List Char))
  | .contextual => some none
  | .strict => some (some (strictInput access.parent access.args))
  | .none => none

abbrev Slot := RuleId × Option (Option (List Char))

def Slot.key (request : RequestId) (slot : RuleId × Option (List Char)) : Key :=
  ⟨request, slot.1, slot.2⟩

def Slot.keyed? (slot : Slot) : Option (RuleId × Option (List Char)) := slot.2.map (slot.1, ·)

def Slot.entry (request : RequestId) (slot : Slot) : RuleId × Option Key :=
  (slot.1, slot.keyed?.map (Slot.key request))

theorem Slot.keyed?_eq_some {slot : Slot} {keyed : RuleId × Option (List Char)}
    (known : slot.keyed? = some keyed) : slot = (keyed.1, some keyed.2) := by
  obtain ⟨rule, input⟩ := slot
  cases input with
  | none => cases known
  | some input =>
    cases known
    rfl

theorem Slot.key_injective (request : RequestId) : Function.Injective (Slot.key request) := by
  rintro ⟨rule, input⟩ ⟨other, further⟩ same
  cases same
  rfl

theorem Slot.entry_injective (request : RequestId) : Function.Injective (Slot.entry request) := by
  rintro ⟨rule, input⟩ ⟨other, further⟩ same
  obtain ⟨rfl, same⟩ := Prod.mk.inj same
  cases input <;> cases further <;> simp_all [Slot.keyed?, Slot.key]

def Question.slot? (question : Question) (id : RuleId) (access : FieldAccess) : Option Slot :=
  match access.input? question.sharing, question.predicate with
  | some input, _ => some (id, some input)
  | none, .custom _ => some (id, none)
  | none, .constant _ => none

theorem Key.of?_eq (sharing : Sharing) (rule : RuleId) (request : RequestId) (access : FieldAccess) :
    Key.of? sharing rule request access =
      (access.input? sharing).map fun input => Slot.key request (rule, input) := by
  cases sharing <;> rfl

theorem Probe.booked?_fresh (probe : Probe) (fresh : probe.stage = .fresh)
    (running : probe.state.request.cancelled = false) :
    probe.booked? = (probe.question.slot? probe.id probe.visit.access).map
      (Slot.entry probe.state.request.id) := by
  simp only [booked?, fresh, running, Stage.isFresh, Bool.not_true, Bool.or_self, Bool.false_eq_true,
    if_false, Key.of?_eq, Question.slot?]
  cases probe.visit.access.input? probe.question.sharing <;> cases probe.question.predicate <;> rfl

namespace Books

variable {books : Books} {entries : List (RuleId × Option Key)} {request : RequestId}
  {slots : List Slot}

def Called (books : Books) (entries : List (RuleId × Option Key)) (id : RuleId) : Prop :=
  books.calls.countP (·.1 = id) = entries.count (id, none) + books.keys.countP (·.rule = id)

theorem called_empty (id : RuleId) : empty.Called [] id := rfl

theorem Called.enter {id : RuleId} (called : books.Called entries id) (entry : RuleId × Option Key)
    (own : ∀ key, entry.2 = some key → key.rule = entry.1) :
    (books.enter entry).Called (entries ++ [entry]) id := by
  unfold Called at called ⊢
  rcases entry with ⟨rule, _ | key⟩
  · simp only [Books.enter, List.countP_append, List.count_append, called]
    by_cases same : rule = id
    · simp [same]
      omega
    · simp [same]
  · obtain rfl := own key rfl
    by_cases member : key ∈ books.keys
    · simpa [Books.enter, member] using called
    · simp only [Books.enter, member, if_false, List.countP_append, List.count_append, called]
      by_cases same : key.rule = id
      · simp [same]
        omega
      · simp [same]

theorem Called.enterAll {id : RuleId} (called : books.Called entries id)
    (others : List (RuleId × Option Key))
    (own : ∀ entry ∈ others, ∀ key, entry.2 = some key → key.rule = entry.1) :
    (books.enterAll others).Called (entries ++ others) id := by
  induction others generalizing books entries with
  | nil => simpa [Books.enterAll] using called
  | cons entry rest ih =>
    have later := ih (called.enter entry (own entry List.mem_cons_self))
      fun other member => own other (List.mem_cons_of_mem _ member)
    simpa [Books.enterAll] using later

structure Sums (books : Books) (request : RequestId) (slots : List Slot) : Prop where
  keys : books.keys.Perm ((slots.filterMap Slot.keyed?).dedup.map (Slot.key request))
  misses : books.misses = (slots.filterMap Slot.keyed?).dedup.length
  total : books.hits + books.misses = (slots.filterMap Slot.keyed?).length
  called : ∀ id, books.calls.countP (·.1 = id) =
    slots.count (id, none) + (slots.filterMap Slot.keyed?).dedup.countP (·.1 = id)

theorem sums_of_slots (request : RequestId) (slots : List Slot) :
    (empty.enterAll (slots.map (Slot.entry request))).Sums request slots := by
  have balanced := balanced_empty.enterAll (slots.map (Slot.entry request))
  rw [List.nil_append] at balanced
  have entries : (slots.map (Slot.entry request)).filterMap Prod.snd =
      (slots.filterMap Slot.keyed?).map (Slot.key request) := by
    rw [List.filterMap_map, List.map_filterMap]
    rfl
  have keys := balanced.keys_perm
  rw [entries, List.dedup_map_of_injective (Slot.key_injective request)] at keys
  refine ⟨keys, ?_, ?_, fun id => ?_⟩
  · rw [balanced.misses, keys.length_eq, List.length_map]
  · rw [balanced.total, entries, List.length_map]
  · have called := (called_empty id).enterAll (slots.map (Slot.entry request)) (by
      intro entry member key same
      obtain ⟨slot, _, rfl⟩ := List.mem_map.mp member
      obtain ⟨keyed, found, rfl⟩ := Option.map_eq_some_iff.mp same
      obtain ⟨input, _, rfl⟩ := Option.map_eq_some_iff.mp found
      rfl)
    rw [List.nil_append] at called
    have alone : (slots.map (Slot.entry request)).count (id, none) = slots.count (id, none) :=
      List.count_map_of_injective _ _ (Slot.entry_injective request) (id, none)
    rw [called, alone, keys.countP_eq, List.countP_map]
    rfl

theorem Sums.mem_keys (sums : books.Sums request slots) (keyed : RuleId × Option (List Char)) :
    Slot.key request keyed ∈ books.keys ↔ (keyed.1, some keyed.2) ∈ slots := by
  rw [sums.keys.mem_iff, List.mem_map_of_injective (Slot.key_injective request), List.mem_dedup,
    List.mem_filterMap]
  constructor
  · rintro ⟨slot, member, known⟩
    exact Slot.keyed?_eq_some known ▸ member
  · exact fun member => ⟨_, member, rfl⟩

theorem Sums.perm {others : Books} {other : RequestId} {permuted : List Slot}
    (sums : books.Sums request slots) (further : others.Sums other permuted)
    (perm : slots.Perm permuted) :
    books.hits = others.hits ∧ books.misses = others.misses ∧
      ∀ id, books.calls.countP (·.1 = id) = others.calls.countP (·.1 = id) := by
  have keyed := perm.filterMap Slot.keyed?
  have misses : books.misses = others.misses := by
    rw [sums.misses, further.misses, keyed.dedup.length_eq]
  have total : books.hits + books.misses = others.hits + others.misses := by
    rw [sums.total, further.total, keyed.length_eq]
  refine ⟨by omega, misses, fun id => ?_⟩
  rw [sums.called, further.called, perm.count_eq, keyed.dedup.countP_eq]

end Books

theorem Question.slot?_eq_some {question : Question} {id : RuleId} {access : FieldAccess}
    {rule : RuleId} {input : Option (List Char)}
    (found : question.slot? id access = some (rule, some input)) :
    rule = id ∧ access.input? question.sharing = some input := by
  unfold slot? at found
  split at found <;> simp_all

namespace Rule

def slots (rule : Rule) (precedence : Precedence) (answer : RuleId → Decision)
    (access : FieldAccess) : List Slot :=
  (rule.consulted precedence answer).filterMap fun leaf => leaf.2.slot? leaf.1 access

/-- The leaves of the rule are known by their identities. Their predicates are pure, decide at once,
and depend on nothing that their keys leave out; constants are not cached. -/
structure Predictable (questions : RuleId → Question) (answer : RuleId → Evidence → Decision)
    (rule : Rule) : Prop where
  named : rule.Named questions
  plain : ∀ leaf ∈ rule.leaves, leaf.2.Plain
  answers : ∀ leaf ∈ rule.leaves, leaf.2.Replies (answer leaf.1)
  covers : ∀ leaf ∈ rule.leaves, leaf.2.sharing.Covers (answer leaf.1)

variable {questions : RuleId → Question} {answer : RuleId → Evidence → Decision}
  {request : RequestId} {context : Json} {rule : Rule}

theorem Predictable.leaf (predictable : rule.Predictable questions answer) (visit : Visit)
    (leaf : RuleId × Question) (member : leaf ∈ rule.leaves) (state : State)
    (foretells : state.Foretells questions answer request context) :
    (leaf.2.poll leaf.1 visit .fresh state).1 =
        .settled (answer leaf.1 (visit.access.evidence context)) ∧
      (leaf.2.poll leaf.1 visit .fresh state).2.Foretells questions answer request context :=
  Question.poll_foretold (predictable.named leaf member) (predictable.answers leaf member)
    (predictable.covers leaf member) foretells

theorem Predictable.probes_booked (predictable : rule.Predictable questions answer) (visit : Visit)
    (state : State) (foretells : state.Foretells questions answer request context) :
    (rule.probes visit .fresh state).filterMap Probe.booked? =
      (rule.slots visit.precedence (fun id => answer id (visit.access.evidence context))
        visit.access).map (Slot.entry request) := by
  have consulted : (rule.probes visit .fresh state).map (fun probe => (probe.id, probe.question)) =
      rule.consulted visit.precedence fun id => answer id (visit.access.evidence context) :=
    rule.probes_consulted visit (State.Foretells questions answer request context)
      (predictable.leaf visit) state foretells
  have foretold := ((rule.poll_linked visit .fresh state).preserves
    (State.Foretells questions answer request context) (by
      intro probe member held
      obtain ⟨rfl, fresh, leaf⟩ := rule.probes_fresh visit state probe member
      have polled := predictable.leaf probe.visit _ leaf probe.state held
      rw [← fresh] at polled
      exact polled.2) foretells).1
  rw [slots, ← consulted, List.filterMap_map, List.map_filterMap]
  refine List.filterMap_congr fun probe member => ?_
  obtain ⟨rfl, fresh, _⟩ := rule.probes_fresh visit state probe member
  rw [probe.booked?_fresh fresh (foretold probe member).running, (foretold probe member).id]
  rfl

theorem input_of_mem_slots {precedence : Precedence} {answers : RuleId → Decision} {access : FieldAccess}
    (named : rule.Named questions) {id : RuleId} {input : Option (List Char)}
    (member : (id, some input) ∈ rule.slots precedence answers access) :
    access.input? (questions id).sharing = some input := by
  obtain ⟨leaf, consulted, slot⟩ := List.mem_filterMap.mp member
  obtain ⟨rfl, known⟩ := Question.slot?_eq_some slot
  rw [← named leaf (rule.consulted_subset precedence answers consulted)]
  exact known

end Rule

theorem State.find?_unslotted {request : RequestId} {state : State} {slots : List Slot}
    (sums : state.books.Sums request slots)
    (keyed : RuleId × Option (List Char)) (missing : (keyed.1, some keyed.2) ∉ slots) :
    state.request.memo.find? (Slot.key request keyed) = none := by
  rw [← Option.not_isSome_iff_eq_none, Memo.find?_isSome_iff]
  exact fun found => missing ((sums.mem_keys keyed).mp found)

namespace State.Foretells

variable {questions : RuleId → Question} {answer : RuleId → Evidence → Decision}
  {request : RequestId} {context : Json} {state : State} {slots : List Slot}

theorem find?_slot (foretells : state.Foretells questions answer request context)
    (sums : state.books.Sums request slots) (keyed : RuleId × Option (List Char))
    (member : (keyed.1, some keyed.2) ∈ slots) (access : FieldAccess)
    (known : access.input? (questions keyed.1).sharing = some keyed.2) :
    state.request.memo.find? (Slot.key request keyed) =
      some (.settled (answer keyed.1 (access.evidence context))) := by
  have found := (state.request.memo.find?_isSome_iff _).mpr ((sums.mem_keys keyed).mpr member)
  obtain ⟨flight, found⟩ := Option.isSome_iff_exists.mp found
  have key : Key.of? (questions keyed.1).sharing keyed.1 request access =
      some (Slot.key request keyed) := by
    rw [Key.of?_eq, known]
    rfl
  rw [found, foretells.flights _ flight found access key]
  rfl

theorem size_eq (foretells : state.Foretells questions answer request context)
    (sums : state.books.Sums request slots)
    (known : ∀ keyed : RuleId × Option (List Char), (keyed.1, some keyed.2) ∈ slots →
      ∃ access : FieldAccess, access.input? (questions keyed.1).sharing = some keyed.2) :
    state.request.memo.size = state.request.memo.misses := by
  have distinct : state.request.memo.keys.Nodup := sums.keys.nodup_iff.mpr
    ((List.nodup_dedup _).map (Slot.key_injective request))
  have settled : ∀ key ∈ state.request.memo.keys, state.request.memo.isSettled key = true := by
    intro key member
    obtain ⟨keyed, _, rfl⟩ := List.mem_map.mp (sums.keys.mem_iff.mp member)
    have inside := (sums.mem_keys keyed).mp member
    obtain ⟨access, known⟩ := known keyed inside
    exact (Memo.isSettled_iff _ _).mpr ⟨_, foretells.find?_slot sums keyed inside access known⟩
  have misses : state.request.memo.misses = state.request.memo.keys.length :=
    sums.misses.trans (by rw [← List.length_map (Slot.key request)]; exact sums.keys.length_eq.symm)
  rw [Memo.size_eq _ distinct, List.countP_eq_length.mpr settled, misses]

end State.Foretells

end FieldGuard
