import FieldGuard.Proofs.Building
import FieldGuard.Proofs.Governance

set_option autoImplicit false

namespace FieldGuard

theorem mem_of_lookup {κ : Type} [BEq κ] [LawfulBEq κ] {entries : List (κ × Rule)} {key : κ}
    {rule : Rule} (found : entries.lookup key = some rule) : (key, rule) ∈ entries := by
  obtain ⟨before, after, rfl, _⟩ := List.lookup_eq_some_iff.mp found
  simp

theorem missing_of_lookup {κ : Type} [BEq κ] [LawfulBEq κ] {entries : List (κ × Rule)} {key : κ}
    (missing : entries.lookup key = none) : ∀ entry ∈ entries, entry.1 ≠ key := by
  intro entry member same
  simpa [same] using List.lookup_eq_none_iff.mp missing entry member

namespace RuleTable

def Precedes (key other : String × String) : Prop :=
  key.1 < other.1 ∨ key.1 = other.1 ∧ key.2 < other.2

theorem fieldBefore_iff {key other : String × String} :
    fieldBefore key other ↔ key.1 ≤ other.1 ∧ (key.1 = other.1 → key.2 ≤ other.2) := by
  simp only [fieldBefore, Bool.or_eq_true, Bool.and_eq_true, decide_eq_true_eq, beq_iff_eq]
  constructor
  · rintro (before | ⟨same, notAfter⟩)
    · exact ⟨Std.le_of_lt before, fun same => absurd (same ▸ before) (String.lt_irrefl _)⟩
    · exact ⟨same ▸ String.le_refl _, fun _ => notAfter⟩
  · rintro ⟨notAfter, second⟩
    by_cases same : key.1 = other.1
    · exact .inr ⟨same, second same⟩
    · exact .inl (Std.lt_of_le_of_ne notAfter same)

theorem fieldNames_sorted (table : RuleTable) :
    table.fieldNames.Pairwise fun key other => fieldBefore key other := by
  apply List.pairwise_mergeSort
  · intro a b c first second
    rw [fieldBefore_iff] at *
    refine ⟨String.le_trans first.1 second.1, fun same => ?_⟩
    have middle : a.1 = b.1 := String.le_antisymm first.1 (same ▸ second.1)
    exact String.le_trans (first.2 middle) (second.2 (middle ▸ same))
  · intro a b
    rw [Bool.or_eq_true, fieldBefore_iff, fieldBefore_iff]
    by_cases same : a.1 = b.1
    · simpa [same] using String.le_total a.2 b.2
    · simpa [same, Ne.symm same] using String.le_total a.1 b.1

theorem fieldNames_perm (table : RuleTable) :
    table.fieldNames.Perm (table.fields.map Prod.fst) := List.mergeSort_perm _ _

theorem fieldNames_increasing {table : RuleTable} (distinct : (table.fields.map Prod.fst).Nodup) :
    table.fieldNames.Pairwise Precedes := by
  have apart : table.fieldNames.Nodup := table.fieldNames_perm.nodup_iff.mpr distinct
  refine (table.fieldNames_sorted.and apart).imp ?_
  rintro key other ⟨before, different⟩
  obtain ⟨notAfter, second⟩ := fieldBefore_iff.mp before
  by_cases same : key.1 = other.1
  · refine .inr ⟨same, Std.lt_of_le_of_ne (second same) fun equal => different ?_⟩
    exact Prod.ext same equal
  · exact .inl (Std.lt_of_le_of_ne notAfter same)

theorem mem_fieldNames_iff {table : RuleTable} {key : String × String} :
    key ∈ table.fieldNames ↔ (table.lookup key.1 key.2).2 = .field := by
  rw [table.fieldNames_perm.mem_iff, lookup]
  cases found : table.fields.lookup key with
  | some rule => simpa [found] using ⟨rule, mem_of_lookup found⟩
  | none =>
    have missing := missing_of_lookup found
    constructor
    · intro member
      obtain ⟨entry, inside, same⟩ := List.mem_map.mp member
      exact absurd same (missing entry inside)
    · simp only
      intro source
      split at source
      · cases source
      · split at source <;> cases source

/-- Two tables tell the same of every field, and list the same fields. -/
structure Matches (table other : RuleTable) : Prop where
  lookup : ∀ parentType field,
    (table.lookup parentType field).1.id = (other.lookup parentType field).1.id ∧
      (table.lookup parentType field).2 = (other.lookup parentType field).2
  fieldNames : table.fieldNames = other.fieldNames
  size : table.size = other.size

end RuleTable

namespace Registrations

section

variable {κ : Type} [DecidableEq κ] {check : κ → Except TableError Unit} {conflict : κ → TableError}

theorem collect_keys {found entries table : List (κ × Rule)}
    (collected : collect check conflict found entries = .ok table)
    (distinct : (found.map Prod.fst).Nodup) : (table.map Prod.fst).Nodup := by
  induction entries generalizing found with
  | nil =>
    cases collected
    exact distinct
  | cons entry rest ih =>
    obtain ⟨key, rule⟩ := entry
    rcases collect_cons_ok collected with ⟨new, collected⟩ | ⟨_, collected⟩
    · apply ih collected
      have apart : ∀ entry ∈ found, entry.1 ≠ key := missing_of_lookup new
      rw [List.map_append]
      exact List.nodup_append.mpr ⟨distinct, List.pairwise_singleton _ _, by simpa using apart⟩
    · exact ih collected distinct

end

variable {registrations : Registrations} {fresh : RuleId}

/-- The most specific registration for a field, and where it was found. -/
inductive Answers (registrations : Registrations) (fresh : RuleId) (parentType field : String) :
    Rule × Source → Prop
  | field {rule : Rule} : ((parentType, field), rule) ∈ registrations.fields →
      Answers registrations fresh parentType field (rule, .field)
  | typeFallback {rule : Rule} :
      (∀ entry ∈ registrations.fields, entry.1 ≠ (parentType, field)) →
      (parentType, rule) ∈ registrations.typeFallbacks →
        Answers registrations fresh parentType field (rule, .typeFallback)
  | fallback {rule : Rule} :
      (∀ entry ∈ registrations.fields, entry.1 ≠ (parentType, field)) →
      (∀ entry ∈ registrations.typeFallbacks, entry.1 ≠ parentType) →
      rule ∈ registrations.fallbacks →
        Answers registrations fresh parentType field (rule, .fallback)
  | default :
      (∀ entry ∈ registrations.fields, entry.1 ≠ (parentType, field)) →
      (∀ entry ∈ registrations.typeFallbacks, entry.1 ≠ parentType) →
      registrations.fallbacks = [] →
        Answers registrations fresh parentType field
          (.constant fresh (registrations.defaultPolicy = .allow), .defaultPolicy)

theorem answers_lookup {table : RuleTable} (built : registrations.build fresh = .ok table)
    (parentType field : String) :
    registrations.Answers fresh parentType field (table.lookup parentType field) := by
  obtain ⟨fields, types, fallback, default⟩ := build_tiers built
  rw [RuleTable.lookup, fields, types, fallback, default]
  cases found : registrations.fields.lookup (parentType, field) with
  | some rule => exact .field (mem_of_lookup found)
  | none =>
    have unregistered := missing_of_lookup found
    cases typed : registrations.typeFallbacks.lookup parentType with
    | some rule => exact .typeFallback unregistered (mem_of_lookup typed)
    | none =>
      have untyped := missing_of_lookup typed
      cases fell : registrations.fallbacks with
      | cons rule rest => exact .fallback unregistered untyped (by simp [fell])
      | nil =>
        have policy : registrations.defaultPolicy.allows =
            decide (registrations.defaultPolicy = .allow) := by
          cases registrations.defaultPolicy <;> rfl
        rw [policy]
        exact .default unregistered untyped fell

theorem Answers.unique {parentType field : String} {answer other : Rule × Source}
    (answers : registrations.Answers fresh parentType field answer)
    (also : registrations.Answers fresh parentType field other)
    (consistent : registrations.Consistent) : answer.1.id = other.1.id ∧ answer.2 = other.2 := by
  cases answers with
  | field member =>
    cases also with
    | field second => exact ⟨consistent.fields _ member _ second rfl, rfl⟩
    | _ unregistered => exact absurd rfl (unregistered _ member)
  | typeFallback unregistered member =>
    cases also with
    | field second => exact absurd rfl (unregistered _ second)
    | typeFallback _ second => exact ⟨consistent.typeFallbacks _ member _ second rfl, rfl⟩
    | _ _ untyped => exact absurd rfl (untyped _ member)
  | fallback unregistered untyped member =>
    cases also with
    | field second => exact absurd rfl (unregistered _ second)
    | typeFallback _ second => exact absurd rfl (untyped _ second)
    | fallback _ _ second => exact ⟨consistent.fallbacks _ member _ second, rfl⟩
    | default _ _ none => simp [none] at member
  | default unregistered untyped none =>
    cases also with
    | field second => exact absurd rfl (unregistered _ second)
    | typeFallback _ second => exact absurd rfl (untyped _ second)
    | fallback _ _ second => simp [none] at second
    | default _ _ _ => exact ⟨rfl, rfl⟩

theorem build_distinct {table : RuleTable} (built : registrations.build fresh = .ok table) :
    (table.fields.map Prod.fst).Nodup := by
  obtain ⟨fields, _, _, collected, _, _, rfl⟩ := build_eq_ok.mp built
  exact collect_keys collected .nil

/-- What a table tells of fields is what was registered for them. -/
structure Describes (registrations : Registrations) (fresh : RuleId) (table : RuleTable) : Prop where
  answers : ∀ parentType field,
    registrations.Answers fresh parentType field (table.lookup parentType field)
  unique : ∀ parentType field answer, registrations.Answers fresh parentType field answer →
    answer.1.id = (table.lookup parentType field).1.id ∧
      answer.2 = (table.lookup parentType field).2
  increasing : table.fieldNames.Pairwise RuleTable.Precedes
  listed : ∀ key, key ∈ table.fieldNames ↔ (table.lookup key.1 key.2).2 = .field
  counted : table.fieldNames.length = table.size

theorem build_describes {table : RuleTable} (built : registrations.build fresh = .ok table) :
    registrations.Describes fresh table where
  answers := answers_lookup built
  unique parentType field answer answers :=
    answers.unique (answers_lookup built parentType field) (build_ok_iff.mp ⟨table, built⟩)
  increasing := RuleTable.fieldNames_increasing (build_distinct built)
  listed _ := RuleTable.mem_fieldNames_iff
  counted := by simpa [RuleTable.size] using table.fieldNames_perm.length_eq

structure Reorders (registrations other : Registrations) : Prop where
  fields : registrations.fields.Perm other.fields
  typeFallbacks : registrations.typeFallbacks.Perm other.typeFallbacks
  fallbacks : registrations.fallbacks.Perm other.fallbacks
  defaultPolicy : registrations.defaultPolicy = other.defaultPolicy

namespace Reorders

variable {other : Registrations}

theorem symm (reorders : registrations.Reorders other) : other.Reorders registrations :=
  ⟨reorders.fields.symm, reorders.typeFallbacks.symm, reorders.fallbacks.symm,
    reorders.defaultPolicy.symm⟩

theorem consistent (reorders : registrations.Reorders other)
    (consistent : registrations.Consistent) : other.Consistent where
  fields_named entry member := consistent.fields_named entry (reorders.fields.mem_iff.mpr member)
  fields entry member second also := consistent.fields entry (reorders.fields.mem_iff.mpr member)
    second (reorders.fields.mem_iff.mpr also)
  types_named entry member :=
    consistent.types_named entry (reorders.typeFallbacks.mem_iff.mpr member)
  typeFallbacks entry member second also :=
    consistent.typeFallbacks entry (reorders.typeFallbacks.mem_iff.mpr member) second
      (reorders.typeFallbacks.mem_iff.mpr also)
  fallbacks rule member second also :=
    consistent.fallbacks rule (reorders.fallbacks.mem_iff.mpr member) second
      (reorders.fallbacks.mem_iff.mpr also)

theorem answers (reorders : registrations.Reorders other) {parentType field : String}
    {answer : Rule × Source} (answers : registrations.Answers fresh parentType field answer) :
    other.Answers fresh parentType field answer := by
  have unregistered {key : String × String}
      (none : ∀ entry ∈ registrations.fields, entry.1 ≠ key) :
      ∀ entry ∈ other.fields, entry.1 ≠ key :=
    fun entry member => none entry (reorders.fields.mem_iff.mpr member)
  have untyped {key : String} (none : ∀ entry ∈ registrations.typeFallbacks, entry.1 ≠ key) :
      ∀ entry ∈ other.typeFallbacks, entry.1 ≠ key :=
    fun entry member => none entry (reorders.typeFallbacks.mem_iff.mpr member)
  cases answers with
  | field member => exact .field (reorders.fields.mem_iff.mp member)
  | typeFallback first member =>
    exact .typeFallback (unregistered first) (reorders.typeFallbacks.mem_iff.mp member)
  | fallback first second member =>
    exact .fallback (unregistered first) (untyped second) (reorders.fallbacks.mem_iff.mp member)
  | default first second none =>
    rw [reorders.defaultPolicy]
    exact .default (unregistered first) (untyped second)
      (List.nil_perm.mp (none ▸ reorders.fallbacks))

end Reorders

variable {other : Registrations} {table reordered : RuleTable}

theorem fieldNames_eq (built : registrations.build fresh = .ok table)
    (also : other.build fresh = .ok reordered)
    (same : ∀ key, key ∈ table.fieldNames ↔ key ∈ reordered.fieldNames) :
    table.fieldNames = reordered.fieldNames := by
  have apart := table.fieldNames_perm.nodup_iff.mpr (build_distinct built)
  have distinct := reordered.fieldNames_perm.nodup_iff.mpr (build_distinct also)
  have order := (List.perm_ext_iff_of_nodup apart distinct).mpr same
  refine order.eq_of_pairwise ?_ table.fieldNames_sorted reordered.fieldNames_sorted
  intro key second _ _ before after
  rw [RuleTable.fieldBefore_iff] at before after
  have type := String.le_antisymm before.1 after.1
  exact Prod.ext type (String.le_antisymm (before.2 type) (after.2 type.symm))

theorem Reorders.matches (reorders : registrations.Reorders other)
    (built : registrations.build fresh = .ok table) (also : other.build fresh = .ok reordered) :
    table.Matches reordered := by
  have first := build_describes built
  have second := build_describes also
  have lookup (parentType field : String) :=
    second.unique parentType field _ (reorders.answers (first.answers parentType field))
  have names : table.fieldNames = reordered.fieldNames := by
    apply fieldNames_eq built also
    intro key
    rw [first.listed, second.listed, (lookup key.1 key.2).2]
  refine ⟨lookup, names, ?_⟩
  rw [← first.counted, ← second.counted, names]

/-- A table is made of consistent registrations, and the first fault of others is reported. The order
of registrations does not matter for whether there is a table and for what it tells. -/
theorem build_in_any_order (registrations : Registrations) (fresh : RuleId) :
    ((∃ table, registrations.build fresh = .ok table) ↔ registrations.Consistent) ∧
    (∀ error, registrations.build fresh = .error error ↔ registrations.Refused error) ∧
    (∀ table, registrations.build fresh = .ok table → registrations.Describes fresh table) ∧
    ∀ other, registrations.Reorders other →
      ((∃ table, other.build fresh = .ok table) ↔
        ∃ table, registrations.build fresh = .ok table) ∧
      ∀ table reordered, registrations.build fresh = .ok table →
        other.build fresh = .ok reordered → table.Matches reordered := by
  refine ⟨build_ok_iff, fun error => build_error_iff, fun table => build_describes, ?_⟩
  intro other reorders
  refine ⟨?_, fun table reordered => reorders.matches⟩
  rw [build_ok_iff, build_ok_iff]
  exact ⟨reorders.symm.consistent, reorders.consistent⟩

theorem build_in_any_order_default :
    let report := Rule.leaf 1 ⟨"report", .none, .constant true⟩
    let owner := Rule.leaf 2 ⟨"owner", .none, .constant false⟩
    let registered := fun fields policy => Registrations.mk fields [] [] policy
    let fields := [(("Query", "report"), report), (("Post", "title"), owner)]
    let tells := fun (table : RuleTable) policy allowed =>
      table.lookup "Query" "report" = (report, .field) ∧
        table.lookup "Query" "other" = (.constant 7 allowed, .defaultPolicy) ∧
        table.fieldNames = [("Post", "title"), ("Query", "report")] ∧
        (registered fields policy).Describes 7 table ∧
        ∃ reordered, (registered fields.reverse policy).build 7 = .ok reordered ∧
          table.Matches reordered
    (∃ table, (registered fields .deny).build 7 = .ok table ∧ tells table .deny false) ∧
      ∃ table, (registered fields .allow).build 7 = .ok table ∧ tells table .allow true := by
  -- Two fields in either order, and no fallback: the constant of the default policy stands for all
  -- other fields.
  intro report owner registered fields tells
  have reorders (policy : DefaultPolicy) :
      (registered fields policy).Reorders (registered fields.reverse policy) :=
    ⟨(List.reverse_perm fields).symm, .nil, .nil, rfl⟩
  have later : RuleTable.fieldBefore ("Query", "report") ("Post", "title") = false := by
    decide +kernel
  have names (policy : DefaultPolicy) (constant : Rule) :
      (RuleTable.mk fields [] none policy constant).fieldNames =
        [("Post", "title"), ("Query", "report")] := by
    simp [RuleTable.fieldNames, fields, List.mergeSort, later]
  constructor
  · obtain ⟨-, -, describes, ordered⟩ := build_in_any_order (registered fields .deny) 7
    refine ⟨_, rfl, rfl, rfl, names _ _, describes _ rfl, _, rfl, ?_⟩
    exact (ordered _ (reorders .deny)).2 _ _ rfl rfl
  · obtain ⟨-, -, describes, ordered⟩ := build_in_any_order (registered fields .allow) 7
    refine ⟨_, rfl, rfl, rfl, names _ _, describes _ rfl, _, rfl, ?_⟩
    exact (ordered _ (reorders .allow)).2 _ _ rfl rfl

end Registrations

end FieldGuard
