import FieldGuard.Proofs.Programs
import FieldGuard.Proofs.Registrations

set_option autoImplicit false

namespace FieldGuard

namespace Policy

def Uniform (defaults : List DefaultPolicy) : Prop :=
  ∀ policy ∈ defaults, ∀ other ∈ defaults, policy = other

theorem singleDefault_outcome (defaults : List DefaultPolicy) :
    (Uniform defaults → singleDefault defaults = .ok defaults.head?) ∧
    (¬ Uniform defaults → singleDefault defaults = .error .conflictingDefault) := by
  cases defaults with
  | nil => exact ⟨fun _ => rfl, fun mixed => absurd nofun mixed⟩
  | cons first rest =>
      have all : (rest.all (· = first)) = true ↔ Uniform (first :: rest) := by
        simp only [List.all_eq_true, decide_eq_true_eq]
        constructor
        · intro same policy member other also
          have equal : ∀ policy ∈ first :: rest, policy = first := List.forall_mem_cons.mpr ⟨rfl, same⟩
          rw [equal policy member, equal other also]
        · exact fun uniform policy member => uniform policy (by simp [member]) first (by simp)
      rw [singleDefault, ← all]
      constructor
      · exact fun same => if_pos same
      · exact fun mixed => if_neg mixed

namespace Document

variable {document : Document} {registry : Registry} {fresh : RuleId}

structure Compiles (document : Document) (registry : Registry) : Prop where
  unique : registry.names.Nodup
  uniform : Uniform document.defaults
  defined : ∀ entry ∈ document.rules, ∀ name ∈ entry.2.references, name ∈ registry.names
  agree : ∀ entry ∈ document.rules, ∀ other ∈ document.rules, entry.1 = other.1 →
    entry.2.Agree registry other.2

/-- The errors that a document can be refused with. Each of them comes before the next ones. -/
inductive Refused (document : Document) (registry : Registry) : TableError → Prop
  | duplicate {name : String} {rule : Rule} :
      Earliest Registry.Repeats registry (name, rule) → Refused document registry (.duplicateRule name)
  | defaults : registry.names.Nodup → ¬ Uniform document.defaults →
      Refused document registry .conflictingDefault
  | undefined {name : String} {target : Target} :
      registry.names.Nodup → Uniform document.defaults →
      undefined? registry document.rules = some (name, target) →
        Refused document registry (.undefinedRule name target)
  | conflict {tier : Tier} {entry : Target × Expr} :
      registry.names.Nodup → Uniform document.defaults →
      undefined? registry document.rules = none →
      (∀ sooner ∈ tier.sooner, Never (Clashes registry sooner) document.rules) →
      Earliest (Clashes registry tier) document.rules entry →
        Refused document registry entry.1.conflict

theorem not_refused_emptyName {kind : NameKind} {site : Target} :
    ¬ document.Refused registry (.emptyName kind site) := by
  generalize same : TableError.emptyName kind site = error
  intro refused
  cases refused with
  | @conflict _ entry =>
      obtain ⟨target, _⟩ := entry
      cases target <;> cases same
  | _ => cases same

theorem never_clashes_iff {rules : List (Target × Expr)} :
    (∀ tier, Never (Clashes registry tier) rules) ↔ ∀ entry ∈ rules, ∀ other ∈ rules,
      entry.1 = other.1 → entry.2.Agree registry other.2 := by
  let Apart (earlier entry : Target × Expr) : Prop :=
    earlier.1 = entry.1 ∧ ¬ earlier.2.Agree registry entry.2
  have together : (∀ tier, Never (Clashes registry tier) rules) ↔
      Never (fun before entry => ∃ earlier ∈ before, Apart earlier entry) rules :=
    ⟨fun never before entry after split apart => never _ before entry after split ⟨rfl, apart⟩,
      fun never _ before entry after split clash => never before entry after split clash.2⟩
  have irreflexive : ∀ entry, ¬ Apart entry entry := fun _ apart => apart.2 .refl
  have symmetric : ∀ earlier entry, Apart earlier entry → Apart entry earlier :=
    fun _ _ apart => ⟨apart.1.symm, fun agree => apart.2 agree.symm⟩
  rw [together, never_iff_forall irreflexive symmetric]
  simp only [Apart, not_and, not_not]

theorem clash_or_never (registry : Registry) (rules : List (Target × Expr)) :
    (∃ tier entry, (∀ sooner ∈ tier.sooner, Never (Clashes registry sooner) rules) ∧
      Earliest (Clashes registry tier) rules entry) ∨ ∀ tier, Never (Clashes registry tier) rules := by
  rcases earliest_or_never (Clashes registry .field) rules with ⟨entry, clash⟩ | fields
  · exact .inl ⟨.field, entry, by simp [Tier.sooner], clash⟩
  rcases earliest_or_never (Clashes registry .type) rules with ⟨entry, clash⟩ | types
  · exact .inl ⟨.type, entry, by simpa [Tier.sooner] using fields, clash⟩
  rcases earliest_or_never (Clashes registry .fallback) rules with ⟨entry, clash⟩ | fallbacks
  · exact .inl ⟨.fallback, entry, by simpa [Tier.sooner] using ⟨fields, types⟩, clash⟩
  exact .inr fun tier => by cases tier <;> assumption

theorem compiles_or_refused (document : Document) (registry : Registry) :
    document.Compiles registry ∨ ∃ error, document.Refused registry error := by
  rcases earliest_or_never Registry.Repeats registry with ⟨⟨name, rule⟩, earliest⟩ | never
  · exact .inr ⟨_, .duplicate earliest⟩
  have unique := Registry.never_repeats.mp never
  by_cases uniform : Uniform document.defaults
  case neg => exact .inr ⟨_, .defaults unique uniform⟩
  cases undefined : undefined? registry document.rules with
  | some found => exact .inr ⟨_, .undefined unique uniform undefined⟩
  | none =>
      rcases clash_or_never registry document.rules with ⟨tier, entry, sooner, clash⟩ | quiet
      · exact .inr ⟨_, .conflict unique uniform undefined sooner clash⟩
      · exact .inl ⟨unique, uniform, undefined?_eq_none.mp undefined, never_clashes_iff.mp quiet⟩

def defaultPolicy (document : Document) : DefaultPolicy := document.defaults.head?.getD .deny

def vocabulary (registry : Registry) (fresh : RuleId) : Vocabulary :=
  { registry, allow := .constant fresh true, deny := .constant (fresh + 1) false }

theorem vocabulary_ordered (new : ∀ entry ∈ registry, entry.2.id < fresh) :
    (vocabulary registry fresh).Ordered :=
  ⟨new, Nat.lt_succ_self fresh⟩

theorem table_start :
    Table (vocabulary registry fresh) (fresh + 2) [] ∧ (vocabulary registry fresh).deny.id < fresh + 2 :=
  ⟨.empty, Nat.lt_succ_self (fresh + 1)⟩

theorem compile_eq (unique : registry.names.Nodup) (uniform : Uniform document.defaults)
    (fresh : RuleId) :
    document.compile registry fresh =
      compileRules (vocabulary registry fresh) document.rules []
        { Registrations.empty with defaultPolicy := document.defaultPolicy } (fresh + 2) := by
  rw [compile, Registry.repeated?_start.1 unique]
  simp only [(singleDefault_outcome document.defaults).1 uniform]
  rfl

structure Made (document : Document) (registry : Registry) (fresh : RuleId) (rule : Expr → Rule) :
    Prop where
  registered : ∃ next, document.compile registry fresh =
    .ok (registered document.rules rule document.defaultPolicy, next)
  mirrors : ∀ entry ∈ document.rules, entry.2.Mirrors (vocabulary registry fresh) (rule entry.2)
  identified : ∀ earlier ∈ document.rules, ∀ entry ∈ document.rules,
    (rule earlier.2).id = (rule entry.2).id ↔ earlier.2.Agree registry entry.2

theorem compile_defined (unique : registry.names.Nodup) (uniform : Uniform document.defaults)
    (defined : undefined? registry document.rules = none)
    (new : ∀ entry ∈ registry, entry.2.id < fresh) :
    ∃ rule, document.Made registry fresh rule := by
  obtain ⟨all, next, made, table, _, covered⟩ :=
    compileRules_defined document.rules (undefined?_eq_none.mp defined)
      { Registrations.empty with defaultPolicy := document.defaultPolicy } table_start.1 table_start.2
  refine ⟨ruleOf (vocabulary registry fresh) all, ⟨next, ?_⟩, ?_, ?_⟩
  · rw [compile_eq unique uniform fresh, made, addAll_empty]
  · exact fun entry member => table.mirrors _ (covered entry member)
  · intro earlier member entry also
    exact table.id_eq_iff (vocabulary_ordered new) (covered _ member) (covered _ also)

theorem ofDocument_compiles (new : ∀ entry ∈ registry, entry.2.id < fresh)
    (named : ∀ entry ∈ document.rules, entry.1.Named) (compiles : document.Compiles registry) :
    ∃ result, RuleTable.ofDocument document registry fresh = .ok result := by
  obtain ⟨unique, uniform, defined, agree⟩ := compiles
  obtain ⟨rule, ⟨next, made⟩, _, identified⟩ :=
    compile_defined unique uniform (undefined?_eq_none.mpr defined) new
  obtain ⟨table, built⟩ := (build_outcome identified named _ next).1 (never_clashes_iff.mpr agree)
  refine ⟨(table, next + 1), ?_⟩
  simp only [RuleTable.ofDocument, made]
  change (Registrations.build _ next >>= _) = _
  rw [built]
  rfl

theorem ofDocument_refused (new : ∀ entry ∈ registry, entry.2.id < fresh)
    (named : ∀ entry ∈ document.rules, entry.1.Named) {error : TableError}
    (refused : document.Refused registry error) :
    RuleTable.ofDocument document registry fresh = .error error := by
  cases refused with
  | duplicate earliest =>
      simp only [RuleTable.ofDocument, compile, Registry.repeated?_start.2 _ earliest]
      rfl
  | defaults unique mixed =>
      simp only [RuleTable.ofDocument, compile, Registry.repeated?_start.1 unique,
        (singleDefault_outcome _).2 mixed]
      rfl
  | undefined unique uniform undefined =>
      rw [RuleTable.ofDocument, compile_eq unique uniform fresh,
        compileRules_undefined document.rules undefined _ table_start.1 table_start.2]
      rfl
  | conflict unique uniform defined sooner clash =>
      obtain ⟨rule, ⟨next, made⟩, _, identified⟩ := compile_defined unique uniform defined new
      have failed := (build_outcome identified named document.defaultPolicy next).2 _ _ sooner clash
      simp only [RuleTable.ofDocument, made]
      change (Registrations.build _ next >>= _) = _
      rw [failed]
      rfl

theorem ofDocument_ok_iff (new : ∀ entry ∈ registry, entry.2.id < fresh)
    (named : ∀ entry ∈ document.rules, entry.1.Named) :
    (∃ result, RuleTable.ofDocument document registry fresh = .ok result) ↔
      document.Compiles registry := by
  constructor
  · rintro ⟨result, made⟩
    rcases compiles_or_refused document registry with compiles | ⟨error, refused⟩
    · exact compiles
    · simp [ofDocument_refused new named refused] at made
  · exact ofDocument_compiles new named

theorem ofDocument_error_iff (new : ∀ entry ∈ registry, entry.2.id < fresh)
    (named : ∀ entry ∈ document.rules, entry.1.Named) {error : TableError} :
    RuleTable.ofDocument document registry fresh = .error error ↔
      document.Refused registry error := by
  constructor
  · intro failed
    rcases compiles_or_refused document registry with compiles | ⟨other, refused⟩
    · obtain ⟨result, made⟩ := ofDocument_compiles new named compiles
      simp [made] at failed
    · rw [ofDocument_refused new named refused] at failed
      cases failed
      exact refused
  · exact ofDocument_refused new named

theorem Compiles.perm {rules : List (Target × Expr)} (order : document.rules.Perm rules) :
    Compiles { document with rules } registry ↔ document.Compiles registry := by
  constructor
  · rintro ⟨unique, uniform, defined, agree⟩
    exact ⟨unique, uniform, fun entry member => defined entry (order.mem_iff.mp member),
      fun entry member other also => agree entry (order.mem_iff.mp member) other (order.mem_iff.mp also)⟩
  · rintro ⟨unique, uniform, defined, agree⟩
    exact ⟨unique, uniform, fun entry member => defined entry (order.mem_iff.mpr member),
      fun entry member other also =>
        agree entry (order.mem_iff.mpr member) other (order.mem_iff.mpr also)⟩

end Document

theorem isInitial_not_blank {c : Char} (initial : isInitial c) : ¬ Text.isBlank c := by
  have range : 65 ≤ c.toNat ∧ c.toNat ≤ 122 := by
    delta isInitial Char.isAlpha Char.isUpper Char.isLower at initial
    simp only [Bool.or_eq_true, Bool.and_eq_true, decide_eq_true_eq, beq_iff_eq, UInt32.le_iff_toNat_le] at initial
    rcases initial with (upper | lower) | rfl
    · exact ⟨upper.1, Nat.le_trans upper.2 (by decide)⟩
    · exact ⟨Nat.le_trans (by decide) lower.1, lower.2⟩
    · decide
  simp only [Text.isBlank, Bool.or_eq_true, Bool.and_eq_true, decide_eq_true_eq, beq_iff_eq]
  omega

theorem Word.not_blank (word : Word) : ¬ Text.blank word.name := by
  simp [Text.blank, Word.name, Word.text, isInitial_not_blank word.initial_allowed]

theorem parse_named {text : String} {document : Document} (parsed : parse text = .ok document) :
    ∀ entry ∈ document.rules, entry.1.Named := by
  intro entry member
  rcases parse_targets parsed member with isFallback | ⟨parentType, field, isTarget⟩
  · rw [isFallback]
    trivial
  · rw [isTarget]
    cases field with
    | none => exact parentType.not_blank
    | some field => exact ⟨parentType.not_blank, field.not_blank⟩

end Policy

namespace RuleTable

variable {text : String} {registry : Registry} {fresh : RuleId}

theorem ofPolicy_ok : (∃ result, ofPolicy text registry fresh = .ok result) ↔
    ∃ document, Policy.parse text = .ok document ∧
      ∃ result, ofDocument document registry fresh = .ok result := by
  rw [ofPolicy]
  cases Policy.parse text with
  | error complaint => simp
  | ok document =>
      cases made : ofDocument document registry fresh with
      | error refusal => simp [Except.mapError, made]
      | ok result =>
          have passed : (Except.ok result : Except TableError _).mapError PolicyError.build =
              .ok result := rfl
          exact iff_of_true ⟨result, by simp only [made, passed]⟩ ⟨document, rfl, result, made⟩

theorem ofPolicy_error {error : PolicyError} : ofPolicy text registry fresh = .error error ↔
    (∃ complaint, Policy.parse text = .error complaint ∧ error = .parse complaint) ∨
    ∃ document refusal, Policy.parse text = .ok document ∧
      ofDocument document registry fresh = .error refusal ∧ error = .build refusal := by
  rw [ofPolicy]
  cases Policy.parse text with
  | error complaint => simp [eq_comm]
  | ok document =>
      cases made : ofDocument document registry fresh <;> simp [Except.mapError, made, eq_comm]

theorem ofPolicy_compiles (new : ∀ entry ∈ registry, entry.2.id < fresh) :
    (∃ result, ofPolicy text registry fresh = .ok result) ↔
      ∃ document, Policy.parse text = .ok document ∧ document.Compiles registry := by
  rw [ofPolicy_ok]
  exact exists_congr fun document => and_congr_right fun parsed =>
    Policy.Document.ofDocument_ok_iff new (Policy.parse_named parsed)

/-- Identities are handed out in order, so those of registered rules come before the fresh ones. The
order of statements may change which error is reported, but not whether there is one. -/
theorem ofPolicy_outcome (text : String) (registry : Registry) (fresh : RuleId)
    (new : ∀ entry ∈ registry, entry.2.id < fresh) :
    ((∃ result, ofPolicy text registry fresh = .ok result) ↔
      ∃ document, Policy.parse text = .ok document ∧ document.Compiles registry) ∧
    (∀ error, ofPolicy text registry fresh = .error error ↔
      (∃ complaint, Policy.parse text = .error complaint ∧ error = .parse complaint) ∨
      ∃ document refusal, Policy.parse text = .ok document ∧ document.Refused registry refusal ∧
        error = .build refusal) ∧
    (∀ kind target, ofPolicy text registry fresh ≠ .error (.build (.emptyName kind target))) ∧
    ∀ document rules, Policy.parse text = .ok document → document.rules.Perm rules →
      ((∃ result, ofDocument { document with rules } registry fresh = .ok result) ↔
        ∃ result, ofDocument document registry fresh = .ok result) := by
  have refused {document : Policy.Document} (parsed : Policy.parse text = .ok document)
      {error : TableError} : ofDocument document registry fresh = .error error ↔
        document.Refused registry error :=
    Policy.Document.ofDocument_error_iff new (Policy.parse_named parsed)
  refine ⟨ofPolicy_compiles new, fun error => ?_, fun kind target failed => ?_,
    fun document rules parsed order => ?_⟩
  · rw [ofPolicy_error]
    refine or_congr_right (exists_congr fun document => exists_congr fun refusal => ?_)
    exact and_congr_right fun parsed => and_congr_left fun _ => refused parsed
  · rcases ofPolicy_error.mp failed with ⟨_, _, ⟨⟩⟩ | ⟨document, _, parsed, failed, ⟨⟩⟩
    exact Policy.Document.not_refused_emptyName ((refused parsed).mp failed)
  · have reordered : ∀ entry ∈ rules, entry.1.Named := fun entry member =>
      Policy.parse_named parsed entry (order.mem_iff.mpr member)
    rw [Policy.Document.ofDocument_ok_iff new (Policy.parse_named parsed),
      Policy.Document.ofDocument_ok_iff new reordered]
    exact Policy.Document.Compiles.perm order

theorem ofPolicy_outcome_aliased :
    (∀ entry ∈ [("open", Rule.constant 0 true), ("public", .constant 0 true),
      ("closed", .constant 1 false)], entry.2.id < 2) ∧
    ofPolicy "Query.me: open\nQuery.me: public\nQuery.me: closed"
      [("open", .constant 0 true), ("public", .constant 0 true), ("closed", .constant 1 false)] 2 =
      .error (.build (.conflictingField "Query" "me")) := by
  let me : Policy.Target := .field "Query" "me"
  let registry : Registry :=
    [("open", .constant 0 true), ("public", .constant 0 true), ("closed", .constant 1 false)]
  let rules : List (Policy.Target × Policy.Expr) :=
    [(me, .reference "open"), (me, .reference "public"), (me, .reference "closed")]
  have parsed : Policy.parse "Query.me: open\nQuery.me: public\nQuery.me: closed" =
      .ok ⟨[], rules⟩ := by with_unfolding_all rfl
  have clash : Earliest (Policy.Clashes registry .field) rules (me, .reference "closed") := by
    refine ⟨[_, _], [], rfl, ⟨rfl, (me, .reference "open"), by simp, rfl, ?_⟩, ?_⟩
    · rintro (same | ⟨_, _, _, _, ⟨⟩, ⟨⟩, ⟨⟩, ⟨⟩, id⟩)
      · simp at same
      · simp [Rule.constant, Rule.id] at id
    · refine never_cons.mpr ⟨by simp [Policy.Clashes], never_cons.mpr ⟨?_, never_nil⟩⟩
      rintro ⟨_, earlier, member, _, apart⟩
      obtain rfl := List.mem_singleton.mp member
      exact apart (.inr ⟨_, _, _, _, rfl, rfl, rfl, rfl, rfl⟩)
  have new : ∀ entry ∈ registry, entry.2.id < 2 := by decide
  refine ⟨new, ((ofPolicy_outcome _ registry 2 new).2.1 _).mpr ?_⟩
  exact .inr ⟨_, _, parsed,
    .conflict (by decide) (by simp [Policy.Uniform]) (by decide) (by simp [Policy.Tier.sooner]) clash, rfl⟩

end RuleTable

end FieldGuard
