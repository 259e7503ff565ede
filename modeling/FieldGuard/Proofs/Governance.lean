import FieldGuard.Proofs.Compilation
import FieldGuard.Proofs.Meaning

set_option autoImplicit false

namespace FieldGuard

namespace Registrations

section

variable {κ : Type} [DecidableEq κ] {check : κ → Except TableError Unit} {conflict : κ → TableError}

theorem collect_cons_ok {found rest table : List (κ × Rule)} {key : κ} {rule : Rule}
    (collected : collect check conflict found ((key, rule) :: rest) = .ok table) :
    found.lookup key = none ∧ collect check conflict (found ++ [(key, rule)]) rest = .ok table ∨
      (∃ earlier, found.lookup key = some earlier) ∧
        collect check conflict found rest = .ok table := by
  cases checked : check key with
  | error refusal =>
    rw [collect, checked] at collected
    cases collected
  | ok accepted =>
    rw [collect_cons checked] at collected
    cases located : found.lookup key with
    | none =>
      simp only [located, Option.elim_none] at collected
      exact .inl ⟨rfl, collected⟩
    | some earlier =>
      simp only [located, Option.elim_some] at collected
      split at collected
      · exact .inr ⟨⟨earlier, rfl⟩, collected⟩
      · cases collected

theorem collect_lookup {found entries table : List (κ × Rule)}
    (collected : collect check conflict found entries = .ok table) (key : κ) :
    table.lookup key = (found ++ entries).lookup key := by
  induction entries generalizing found with
  | nil =>
    cases collected
    rw [List.append_nil]
  | cons entry rest ih =>
    obtain ⟨other, rule⟩ := entry
    rcases collect_cons_ok collected with ⟨_, collected⟩ | ⟨⟨earlier, located⟩, collected⟩
    · simpa using ih collected
    · rw [ih collected, List.lookup_append, List.lookup_append, lookup_cons_eq]
      -- a later entry of the key is behind the one that was found
      by_cases same : key = other
      · subst same
        simp [located]
      · rw [if_neg same]

end

theorem single_eq {found result : Option Rule} {rules : List Rule}
    (collected : single found rules = .ok result) : result = found.or rules.head? := by
  induction rules generalizing found with
  | nil =>
    cases found <;> cases collected <;> rfl
  | cons rule rest ih =>
    cases found with
    | none =>
      have later : result = (some rule).or rest.head? := ih collected
      simpa using later
    | some earlier =>
      rw [single] at collected
      split at collected
      · simpa using ih collected
      · cases collected

theorem build_eq_ok {registrations : Registrations} {fresh : RuleId} {table : RuleTable} :
    registrations.build fresh = .ok table ↔ ∃ fields typeFallbacks fallback,
      collect checkField (fun key => .conflictingField key.1 key.2) [] registrations.fields =
        .ok fields ∧
      collect checkType .conflictingTypeFallback [] registrations.typeFallbacks =
        .ok typeFallbacks ∧
      single none registrations.fallbacks = .ok fallback ∧
      table = {
        fields
        typeFallbacks
        fallback
        defaultPolicy := registrations.defaultPolicy
        defaultRule := .constant fresh registrations.defaultPolicy.allows } := by
  rw [build]
  cases collect checkField (fun key => .conflictingField key.1 key.2) []
      registrations.fields with
  | error refusal => simp [bind, Except.bind]
  | ok first =>
    cases collect checkType .conflictingTypeFallback [] registrations.typeFallbacks with
    | error refusal => simp [bind, Except.bind]
    | ok second =>
      cases single none registrations.fallbacks with
      | error refusal => simp [bind, Except.bind]
      | ok third => simp [bind, Except.bind, pure, Except.pure, eq_comm]

theorem build_tiers {registrations : Registrations} {fresh : RuleId} {table : RuleTable}
    (built : registrations.build fresh = .ok table) :
    (∀ key, table.fields.lookup key = registrations.fields.lookup key) ∧
      (∀ key, table.typeFallbacks.lookup key = registrations.typeFallbacks.lookup key) ∧
      table.fallback = registrations.fallbacks.head? ∧
      table.defaultRule = .constant fresh registrations.defaultPolicy.allows := by
  obtain ⟨first, second, third, fields, types, fallbacks, rfl⟩ := build_eq_ok.mp built
  -- keys are compared by their parts here, and as a whole while entries are collected
  have alike (entries : List ((String × String) × Rule)) (key : String × String) :
      entries.lookup key = @List.lookup _ _ instBEqOfDecidableEq key entries := by
    congr
    exact lawful_beq_subsingleton _ _
  exact ⟨fun key => by rw [alike, alike, collect_lookup fields key, List.nil_append],
    fun key => by simpa using collect_lookup types key, by simpa using single_eq fallbacks, rfl⟩

end Registrations

namespace Policy

section

variable {κ : Type} [DecidableEq κ] [BEq κ] [LawfulBEq κ] {key? : Target → Option κ}
  {make : κ → Target} {tier : Tier}

theorem lookup_keyed (keys : Keys key? make tier) (rules : List (Target × Expr)) (rule : Expr → Rule)
    (key : κ) :
    (∃ expr, (make key, expr) ∈ rules ∧
        (rules.filterMap (keyed key? rule)).lookup key = some (rule expr)) ∨
      (∀ entry ∈ rules, entry.1 ≠ make key) ∧
        (rules.filterMap (keyed key? rule)).lookup key = none := by
  induction rules with
  | nil => exact .inr ⟨nofun, rfl⟩
  | cons entry rest ih =>
    obtain ⟨target, expr⟩ := entry
    have made := keys.made target
    cases found : key? target with
    | none =>
      have apart : target ≠ make key := fun same => by simp [(made key).mpr same] at found
      rw [List.filterMap_cons_none (by simp [keyed, found])]
      rcases ih with ⟨other, member, located⟩ | ⟨unstated, missing⟩
      · exact .inl ⟨other, List.mem_cons_of_mem _ member, located⟩
      · exact .inr ⟨List.forall_mem_cons.mpr ⟨apart, unstated⟩, missing⟩
    | some own =>
      have isOwn : target = make own := (made own).mp found
      rw [List.filterMap_cons_some (b := (own, rule expr)) (by simp [keyed, found]), lookup_cons_eq]
      by_cases same : key = own
      · subst same
        exact .inl ⟨expr, by simp [isOwn], by simp⟩
      · have apart : target ≠ make key := by
          intro equal
          have other := (made key).mpr equal
          rw [found] at other
          exact same (Option.some.inj other).symm
        rw [if_neg same]
        rcases ih with ⟨other, member, located⟩ | ⟨unstated, missing⟩
        · exact .inl ⟨other, List.mem_cons_of_mem _ member, located⟩
        · exact .inr ⟨List.forall_mem_cons.mpr ⟨apart, unstated⟩, missing⟩

end

theorem head?_values {β : Type} (entries : List (Unit × β)) :
    (entries.map Prod.snd).head? = entries.lookup () := by
  cases entries with
  | nil => rfl
  | cons entry rest => rfl

/-- The expression that governs a field, if there is one, and where it stands. A statement of the
field goes before those of its type, and these before those of all fields. -/
inductive Document.Governs (document : Document) (parentType field : String) :
    Option Expr → Source → Prop
  | field {expr : Expr} (stated : (.field parentType field, expr) ∈ document.rules) :
      Governs document parentType field (some expr) .field
  | typeFallback {expr : Expr} (unnamed : ∀ entry ∈ document.rules, entry.1 ≠ .field parentType field)
      (stated : (.type parentType, expr) ∈ document.rules) :
      Governs document parentType field (some expr) .typeFallback
  | fallback {expr : Expr} (unnamed : ∀ entry ∈ document.rules, entry.1 ≠ .field parentType field)
      (untyped : ∀ entry ∈ document.rules, entry.1 ≠ .type parentType)
      (stated : (.fallback, expr) ∈ document.rules) :
      Governs document parentType field (some expr) .fallback
  | defaultPolicy (unnamed : ∀ entry ∈ document.rules, entry.1 ≠ .field parentType field)
      (untyped : ∀ entry ∈ document.rules, entry.1 ≠ .type parentType)
      (unstated : ∀ entry ∈ document.rules, entry.1 ≠ .fallback) :
      Governs document parentType field none .defaultPolicy

def Document.Gives (document : Document) (rule : Expr → Rule) (given : Rule) : Option Expr → Prop
  | some expr => given = rule expr
  | none => ∃ id, given = .constant id document.defaultPolicy.allows

theorem Document.lookup_governs {document : Document} {rule : Expr → Rule} {fresh : RuleId}
    {table : RuleTable}
    (built : (registered document.rules rule document.defaultPolicy).build fresh = .ok table)
    (parentType field : String) :
    ∃ expr, document.Governs parentType field expr (table.lookup parentType field).2 ∧
      document.Gives rule (table.lookup parentType field).1 expr := by
  obtain ⟨fields, types, fallback, default⟩ := Registrations.build_tiers built
  simp only [registered, head?_values] at fields types fallback default
  simp only [RuleTable.lookup, fields, types, fallback, default]
  rcases lookup_keyed fieldKeys document.rules rule (parentType, field) with
    ⟨expr, stated, located⟩ | ⟨unnamed, missing⟩
  · rw [located]
    exact ⟨some expr, .field stated, rfl⟩
  rcases lookup_keyed typeKeys document.rules rule parentType with
    ⟨expr, stated, located⟩ | ⟨untyped, absent⟩
  · rw [missing, located]
    exact ⟨some expr, .typeFallback unnamed stated, rfl⟩
  rcases lookup_keyed fallbackKeys document.rules rule () with
    ⟨expr, stated, located⟩ | ⟨unstated, none⟩
  · rw [missing, absent, located]
    exact ⟨some expr, .fallback unnamed untyped stated, rfl⟩
  · rw [missing, absent, none]
    exact ⟨Option.none, .defaultPolicy unnamed untyped unstated, fresh, rfl⟩

mutual

def Expr.holds (truth : String → Bool) : Expr → Bool
  | .reference name => truth name
  | .constant allowed => allowed
  | .not operand => !operand.holds truth
  | .group connective operands => connective.holds (holdsOf truth operands)

def Expr.holdsOf (truth : String → Bool) : List Expr → List Bool
  | [] => []
  | expr :: rest => expr.holds truth :: holdsOf truth rest

end

end Policy

def Registry.holds (registry : Registry) (truth : RuleId → Bool) (name : String) : Bool :=
  ((registry.get? name).map (Rule.holds truth)).getD false

/-- The predicate only allows or denies, and always the same. -/
def Question.Grants (question : Question) (allowed : Bool) : Prop :=
  ∀ decision, question.MayEnd decision → decision.isError = false ∧ decision.isAllowed = allowed

theorem Question.grants_constant {name : String} {sharing : Sharing} {constant allowed : Bool}
    (grants : Question.Grants ⟨name, sharing, .constant constant⟩ allowed) : allowed = constant := by
  have given := (grants (if constant then .allow else .deny none) rfl).2
  cases constant <;> exact given.symm

namespace Policy

theorem Expr.Mirrors.holds_eq {registry : Registry} {fresh : RuleId} {truth : RuleId → Bool}
    {expr : Expr} {rule : Rule} (mirrors : expr.Mirrors (Document.vocabulary registry fresh) rule)
    (grants : ∀ leaf ∈ rule.leaves, leaf.2.Grants (truth leaf.1)) :
    rule.holds truth = expr.holds (registry.holds truth) := by
  induction expr generalizing rule with
  | reference name =>
    have found : registry.get? name = some rule := mirrors_reference.mp mirrors
    simp [holds, Registry.holds, found]
  | constant allowed =>
    cases mirrors with
    | allow => exact Question.grants_constant (grants _ (List.mem_singleton_self _))
    | deny => exact Question.grants_constant (grants _ (List.mem_singleton_self _))
  | not operand ih =>
    cases mirrors with
    | not inner => rw [Rule.holds, holds, ih inner grants]
  | group connective operands ih =>
    cases mirrors with
    | @group _ _ _ rules each =>
      rw [Rule.holds, holds]
      congr 1
      have member (rule : Rule) (inside : rule ∈ rules) (leaf : RuleId × Question)
          (found : leaf ∈ rule.leaves) : leaf.2.Grants (truth leaf.1) :=
        grants leaf ((Rule.mem_leavesOf rules leaf).mpr ⟨rule, inside, found⟩)
      clear grants
      induction each with
      | nil => rfl
      | cons head tail rest =>
        simp only [List.forall_mem_cons] at ih member
        rw [Rule.holdsOf, holdsOf, ih.1 head member.1, rest ih.2 member.2]

def Document.holds (document : Document) (registry : Registry) (truth : RuleId → Bool) :
    Option Expr → Bool
  | some expr => expr.holds (registry.holds truth)
  | none => document.defaultPolicy.allows

theorem Document.holds_of_gives {document : Document} {registry : Registry} {fresh : RuleId}
    {rule : Expr → Rule} {given : Rule} {expr : Option Expr} {truth : RuleId → Bool}
    (gives : document.Gives rule given expr)
    (mirrors : ∀ stated, expr = some stated →
      stated.Mirrors (vocabulary registry fresh) (rule stated))
    (grants : ∀ leaf ∈ given.leaves, leaf.2.Grants (truth leaf.1)) :
    given.holds truth = document.holds registry truth expr := by
  cases expr with
  | some stated =>
    obtain rfl := gives
    exact (mirrors stated rfl).holds_eq grants
  | none =>
    obtain ⟨id, rfl⟩ := gives
    exact Question.grants_constant (grants _ (List.mem_singleton_self _))

theorem Document.Governs.agree {document : Document} {registry : Registry}
    (compiles : document.Compiles registry) {parentType field : String} {expr other : Expr}
    {source : Source} (governs : document.Governs parentType field (some expr) source)
    (also : document.Governs parentType field (some other) source) : expr.Agree registry other := by
  cases governs with
  | field stated =>
    cases also with
    | field too => exact compiles.agree _ stated _ too rfl
  | typeFallback _ stated =>
    cases also with
    | typeFallback _ too => exact compiles.agree _ stated _ too rfl
  | fallback _ _ stated =>
    cases also with
    | fallback _ _ too => exact compiles.agree _ stated _ too rfl

theorem Document.Governs.stated {document : Document} {parentType field : String} {expr : Expr}
    {source : Source} (governs : document.Governs parentType field (some expr) source) :
    ∃ target, (target, expr) ∈ document.rules := by
  cases governs with
  | field stated => exact ⟨_, stated⟩
  | typeFallback _ stated => exact ⟨_, stated⟩
  | fallback _ _ stated => exact ⟨_, stated⟩

end Policy

/-- One of the calls on a request checks a field by a table, and the predicates of the field's rule
only allow or deny, each always the same. A leaf is known by its identity. -/
structure Checks (calls : Nat → Call) (caller : Nat) (table : RuleTable) (access : FieldAccess)
    (truth : RuleId → Bool) : Prop where
  call : ∃ guard, guard.table = table ∧ calls caller = .check guard access
  named : ∃ questions, ∀ other, (calls other).rule.Named questions
  grants : ∀ leaf ∈ (table.lookup access.site.parentType access.site.fieldName).1.leaves,
    leaf.2.Grants (truth leaf.1)

namespace Checks

variable {calls : Nat → Call} {caller : Nat} {table : RuleTable} {access : FieldAccess}
  {truth : RuleId → Bool}

theorem decides (checks : Checks calls caller table access truth) : (calls caller).Decides := by
  obtain ⟨guard, _, call⟩ := checks.call
  simp [call, Call.Decides]

theorem isAllowed_eq (checks : Checks calls caller table access truth) {traffic : Traffic}
    (live : Traffic.Live calls traffic) (decision : Decision)
    (returned : traffic.works caller = .done (.decision decision)) :
    decision.isAllowed =
      (table.lookup access.site.parentType access.site.fieldName).1.holds truth := by
  have decides := checks.decides
  obtain ⟨⟨guard, rfl, call⟩, ⟨questions, named⟩, grants⟩ := checks
  have yields := live.yields decides questions named decision returned
  have own := named caller
  rw [call] at yields own
  have given (leaf : RuleId × Question) (member : leaf ∈ (guard.selected access).1.leaves)
      (answer : Decision) (ends : (questions leaf.1).MayEnd answer) :=
    grants leaf member answer (own leaf member ▸ ends)
  apply yields.isAllowed_eq
  · exact fun leaf member answer ends => (given leaf member answer ends).2
  · exact fun leaf below answer ends =>
      (given leaf (Rule.negatedLeaves_subset _ below) answer ends).1

end Checks

/-- Whatever else happens to the request, the check of a field allows if and only if the formula is
true, and it returns at the latest when no leaf keeps it waiting. -/
def Traffic.ChecksAs (calls : Nat → Call) (caller : Nat) (formula : Bool) (traffic : Traffic) : Prop :=
  (∀ decision, traffic.works caller = .done (.decision decision) →
    (decision = .allow ↔ formula = true)) ∧
  ∀ now, (∀ answer, traffic.works caller ≠ .done answer) →
    (∀ pair ∈ asked calls traffic (.poll caller now), ∃ decision, pair.2.reply = .settled decision) →
      ∃ decision, (step calls traffic (.poll caller now)).works caller = .done (.decision decision) ∧
        (decision = .allow ↔ formula = true)

theorem Checks.checksAs {calls : Nat → Call} {caller : Nat} {table : RuleTable}
    {access : FieldAccess} {truth : RuleId → Bool}
    (checks : Checks calls caller table access truth) {traffic : Traffic}
    (live : Traffic.Live calls traffic) :
    traffic.ChecksAs calls caller
      ((table.lookup access.site.parentType access.site.fieldName).1.holds truth) := by
  constructor
  · intro decision returned
    rw [Decision.eq_allow_iff, checks.isAllowed_eq live decision returned]
  · intro now waiting settled
    obtain ⟨decision, returned⟩ := Traffic.poll_returns checks.decides traffic now waiting settled
    refine ⟨decision, returned, ?_⟩
    rw [Decision.eq_allow_iff, checks.isAllowed_eq (live.poll checks.decides now) decision returned]

namespace RuleTable

theorem ofPolicy_eq_ok {text : String} {registry : Registry} {fresh next : RuleId}
    {table : RuleTable} (made : ofPolicy text registry fresh = .ok (table, next)) :
    ∃ document registrations last, Policy.parse text = .ok document ∧
      document.compile registry fresh = .ok (registrations, last) ∧
        registrations.build last = .ok table := by
  rw [ofPolicy] at made
  cases parsed : Policy.parse text with
  | error complaint => simp [parsed] at made
  | ok document =>
    cases compiled : document.compile registry fresh with
    | error refusal =>
      simp [parsed, ofDocument, compiled, bind, Except.bind, Except.mapError] at made
    | ok result =>
      obtain ⟨registrations, last⟩ := result
      cases built : registrations.build last with
      | error refusal =>
        simp [parsed, ofDocument, compiled, built, bind, Except.bind, Except.mapError] at made
      | ok other =>
        simp [parsed, ofDocument, compiled, built, bind, Except.bind, Except.mapError, pure,
          Except.pure] at made
        exact ⟨document, registrations, last, rfl, compiled, by rw [built, made.1]⟩

/-- A table made of a policy gives every field the rule of a statement that governs it, or else the
default; where several statements do, their rules are one. Rules repeat their expressions, with the
registered rules in the places of references, and two statements have one rule exactly where their
expressions agree. So a field is allowed if and only if what the policy says of it is true. -/
theorem ofPolicy_governs (text : String) (registry : Registry) (fresh next : RuleId)
    (new : ∀ entry ∈ registry, entry.2.id < fresh) (table : RuleTable)
    (made : ofPolicy text registry fresh = .ok (table, next)) :
    ∃ document rule, Policy.parse text = .ok document ∧ document.Made registry fresh rule ∧
      ∀ parentType field, ∃ expr,
        document.Governs parentType field expr (table.lookup parentType field).2 ∧
        document.Gives rule (table.lookup parentType field).1 expr ∧
        (∀ other, document.Governs parentType field (some other) (table.lookup parentType field).2 →
          (rule other).id = (table.lookup parentType field).1.id) ∧
        ∀ calls caller access truth, access.site.parentType = parentType →
          access.site.fieldName = field → Checks calls caller table access truth →
            ∀ traffic, Traffic.Live calls traffic →
              traffic.ChecksAs calls caller (document.holds registry truth expr) := by
  obtain ⟨document, registrations, last, parsed, compiled, built⟩ := ofPolicy_eq_ok made
  have compiles : document.Compiles registry := by
    obtain ⟨other, same, compiles⟩ := (ofPolicy_compiles new).mp ⟨_, made⟩
    rw [parsed] at same
    cases same
    exact compiles
  obtain ⟨rule, rules⟩ := Policy.Document.compile_defined compiles.unique compiles.uniform
    (Policy.undefined?_eq_none.mpr compiles.defined) new
  refine ⟨document, rule, parsed, rules, fun parentType field => ?_⟩
  obtain ⟨final, registered⟩ := rules.registered
  rw [compiled] at registered
  cases registered
  obtain ⟨expr, governs, gives⟩ := Policy.Document.lookup_governs built parentType field
  refine ⟨expr, governs, gives, ?_, ?_⟩
  · intro other also
    obtain ⟨_, member⟩ := also.stated
    cases expr with
    | none =>
      -- where the default holds, no statement governs
      generalize (table.lookup parentType field).2 = source at governs also
      cases governs
      cases also
    | some own =>
      obtain ⟨_, stated⟩ := governs.stated
      rw [gives]
      exact (rules.identified _ member _ stated).mpr (also.agree compiles governs)
  rintro calls caller access truth rfl rfl checks traffic live
  have mirrors : ∀ stated, expr = some stated →
      stated.Mirrors (Policy.Document.vocabulary registry fresh) (rule stated) := by
    rintro stated rfl
    obtain ⟨target, member⟩ := governs.stated
    exact rules.mirrors _ member
  rw [← Policy.Document.holds_of_gives gives mirrors checks.grants]
  exact checks.checksAs live

theorem ofPolicy_governs_negation :
    let known := Question.delayed 5 .allow
    let banned := Question.delayed 5 (.deny none)
    let registry : Registry := [("known", .leaf 0 known), ("banned", .leaf 1 banned)]
    let table : RuleTable :=
      { fields := [(("Query", "me"), .not 4 (.leaf 1 banned))]
        typeFallbacks := [("Query", .leaf 0 known)]
        fallback := none
        defaultPolicy := .deny
        defaultRule := .constant 5 false }
    let calls := fun _ => Call.check ⟨table, .standard⟩ (.bare "Query" "me")
    (∀ entry ∈ registry, entry.2.id < 2) ∧
      ofPolicy "Query.*: known\nQuery.me: NOT banned" registry 2 = .ok (table, 6) ∧
      ∃ document expr, Policy.parse "Query.*: known\nQuery.me: NOT banned" = .ok document ∧
        document.Governs "Query" "me" expr .field ∧
        (Traffic.run calls (Traffic.opened 1 .null []) [.poll 0 0, .poll 0 5]).works 0 =
          .done (.decision .allow) ∧
        document.holds registry (fun _ => false) expr = true := by
  intro known banned registry table calls
  have new : ∀ entry ∈ registry, entry.2.id < 2 := by decide
  have parsed : Policy.parse "Query.*: known\nQuery.me: NOT banned" =
      .ok ⟨[], [(.type "Query", .reference "known"),
        (.field "Query" "me", .not (.reference "banned"))]⟩ := by
    set_option maxRecDepth 1000 in with_unfolding_all rfl
  have made : ofPolicy "Query.*: known\nQuery.me: NOT banned" registry 2 = .ok (table, 6) := by
    rw [ofPolicy, parsed]
    rfl
  have allowed : (Traffic.run calls (Traffic.opened 1 .null []) [.poll 0 0, .poll 0 5]).works 0 =
      .done (.decision .allow) := rfl
  have leaves : (calls 0).rule.leaves = [(1, banned)] := rfl
  have checks : Checks calls 0 table (.bare "Query" "me") (fun _ => false) := by
    refine ⟨⟨_, rfl, rfl⟩, ⟨fun _ => banned, fun _ leaf member => ?_⟩, ?_⟩
    · obtain rfl := List.mem_singleton.mp (leaves ▸ member)
      rfl
    · change ∀ leaf ∈ (calls 0).rule.leaves, _
      rw [leaves]
      intro leaf member decision ends
      obtain rfl := List.mem_singleton.mp member
      rw [Question.delayed_settles _ _ _ ends]
      exact ⟨rfl, rfl⟩
  obtain ⟨document, rule, read, _, governed⟩ := ofPolicy_governs _ registry 2 6 new table made
  obtain ⟨expr, governs, _, _, checked⟩ := governed "Query" "me"
  exact ⟨new, made, document, expr, read, governs, allowed,
    ((checked calls 0 _ _ rfl rfl checks _ ⟨1, .null, [], [.poll 0 0, .poll 0 5], rfl, rfl⟩).1
      .allow allowed).mp rfl⟩

end RuleTable

end FieldGuard
