import FieldGuard.RuleTable.Compile
import FieldGuard.Proofs.Earliest
import Mathlib.Data.List.Forall2

set_option autoImplicit false

namespace FieldGuard

namespace Registry

theorem get?_eq_none_iff {registry : Registry} {name : String} :
    registry.get? name = none ↔ name ∉ registry.names := by
  induction registry with
  | nil => simp [get?, names]
  | cons entry rest ih =>
      simp only [get?, names] at ih ⊢
      by_cases same : name = entry.1
      · simp [same]
      · rw [List.lookup_cons, beq_false_of_ne same]
        simp [ih, same]

theorem mem_of_get? {registry : Registry} {name : String} {rule : Rule}
    (found : registry.get? name = some rule) : (name, rule) ∈ registry := by
  induction registry with
  | nil => simp [get?] at found
  | cons entry rest ih =>
      rw [get?, List.lookup_cons] at found
      split at found
      next same =>
        obtain rfl := Option.some.inj found
        rw [eq_of_beq same]
        exact List.mem_cons_self
      next => exact List.mem_cons_of_mem _ (ih found)

end Registry

def Registrations.addAll (registrations : Registrations) (entries : List (Policy.Target × Rule)) :
    Registrations :=
  entries.foldl (fun registrations entry => registrations.add entry.1 entry.2) registrations

namespace Policy

namespace Expr

@[elab_as_elim, induction_eliminator]
theorem induct {motive : Expr → Prop} (reference : ∀ name, motive (.reference name))
    (constant : ∀ allowed, motive (.constant allowed))
    (not : ∀ operand, motive operand → motive (.not operand))
    (group : ∀ connective operands, (∀ operand ∈ operands, motive operand) →
      motive (.group connective operands)) (expr : Expr) : motive expr :=
  @Expr.rec motive (fun operands => ∀ operand ∈ operands, motive operand) reference constant not
    group (fun _ member => nomatch member)
    (fun _ _ first others _ member =>
      (List.mem_cons.mp member).elim (fun same => same ▸ first) (others _)) expr

mutual

def references : Expr → List String
  | .reference name => [name]
  | .constant _ => []
  | .not operand => operand.references
  | .group _ operands => referencesOf operands

def referencesOf : List Expr → List String
  | [] => []
  | expr :: rest => expr.references ++ referencesOf rest

end

def isComposite : Expr → Bool
  | .not _ | .group _ _ => true
  | _ => false

theorem sameList_iff {exprs others : List Expr}
    (each : ∀ expr ∈ exprs, ∀ other, expr.same other ↔ expr = other) :
    sameList exprs others ↔ exprs = others := by
  induction exprs generalizing others with
  | nil => cases others <;> simp [sameList]
  | cons expr rest ih =>
      cases others with
      | nil => simp [sameList]
      | cons other others =>
          have head := each expr List.mem_cons_self other
          have tail := @ih others fun operand member =>
            each operand (List.mem_cons_of_mem _ member)
          simp only [sameList, Bool.and_eq_true, head, tail, List.cons.injEq]

theorem same_iff (expr other : Expr) : expr.same other ↔ expr = other := by
  induction expr generalizing other with
  | reference name => cases other <;> simp [same]
  | constant allowed => cases other <;> simp [same]
  | not operand ih => cases other <;> simp [same, ih]
  | group connective operands ih =>
      cases other with
      | group kind others => simp [same, sameList_iff ih]
      | _ => simp [same]

def undefined? (registry : Registry) (expr : Expr) : Option String :=
  expr.references.find? (· ∉ registry.names)

/-- The rule repeats the expression, with registered rules in the places of references. -/
inductive Mirrors (vocabulary : Vocabulary) : Expr → Rule → Prop
  | reference {name : String} {rule : Rule} :
      vocabulary.registry.get? name = some rule → Mirrors vocabulary (.reference name) rule
  | allow : Mirrors vocabulary (.constant true) vocabulary.allow
  | deny : Mirrors vocabulary (.constant false) vocabulary.deny
  | not {id : RuleId} {operand : Expr} {rule : Rule} :
      Mirrors vocabulary operand rule → Mirrors vocabulary (.not operand) (.not id rule)
  | group {id : RuleId} {connective : Connective} {operands : List Expr} {rules : List Rule} :
      List.Forall₂ (Mirrors vocabulary) operands rules →
        Mirrors vocabulary (.group connective operands) (.group id connective rules)

structure Lowered (vocabulary : Vocabulary) (expr : Expr) (fresh : RuleId) (rule : Rule)
    (next : RuleId) : Prop where
  mirrors : expr.Mirrors vocabulary rule
  counted : fresh ≤ next
  own : expr.isComposite → fresh ≤ rule.id ∧ rule.id < next

section

variable {vocabulary : Vocabulary} {target : Target}

def Lowers (vocabulary : Vocabulary) (target : Target) (expr : Expr) : Prop :=
  (∀ name ∈ expr.references, name ∈ vocabulary.registry.names) → ∀ fresh, ∃ rule next,
    expr.lower vocabulary target fresh = .ok (rule, next) ∧
      expr.Lowered vocabulary fresh rule next

theorem lowerAll_defined {exprs : List Expr}
    (each : ∀ expr ∈ exprs, expr.Lowers vocabulary target)
    (defined : ∀ name ∈ referencesOf exprs, name ∈ vocabulary.registry.names) (fresh : RuleId) :
    ∃ rules next, lowerAll vocabulary target exprs fresh = .ok (rules, next) ∧
      List.Forall₂ (Mirrors vocabulary) exprs rules ∧ fresh ≤ next := by
  induction exprs generalizing fresh with
  | nil => exact ⟨[], fresh, rfl, .nil, Nat.le_refl _⟩
  | cons expr rest ih =>
      simp only [referencesOf, List.forall_mem_append] at defined
      simp only [List.forall_mem_cons] at each
      obtain ⟨rule, middle, made, lowered⟩ := each.1 defined.1 fresh
      obtain ⟨rules, next, others, mirrors, counted⟩ := ih each.2 defined.2 middle
      refine ⟨rule :: rules, next, ?_, .cons lowered.mirrors mirrors,
        Nat.le_trans lowered.counted counted⟩
      rw [lowerAll, made]
      change (lowerAll vocabulary target rest middle >>= _) = _
      rw [others]
      rfl

theorem lower_defined (expr : Expr) : expr.Lowers vocabulary target := by
  induction expr with
  | reference name =>
      intro defined fresh
      have known : vocabulary.registry.get? name ≠ none := fun missing =>
        Registry.get?_eq_none_iff.mp missing (defined name (by simp [references]))
      obtain ⟨rule, found⟩ := Option.ne_none_iff_exists'.mp known
      exact ⟨rule, fresh, by rw [lower, found], .reference found, Nat.le_refl _, nofun⟩
  | constant allowed =>
      intro _ fresh
      cases allowed with
      | true => exact ⟨_, _, rfl, .allow, Nat.le_refl _, nofun⟩
      | false => exact ⟨_, _, rfl, .deny, Nat.le_refl _, nofun⟩
  | not operand ih =>
      intro defined fresh
      obtain ⟨rule, next, made, lowered⟩ := ih defined fresh
      exact ⟨.not next rule, next + 1, by rw [lower, made]; rfl, .not lowered.mirrors,
        Nat.le_succ_of_le lowered.counted, fun _ => ⟨lowered.counted, Nat.lt_succ_self _⟩⟩
  | group connective operands ih =>
      intro defined fresh
      obtain ⟨rules, next, made, mirrors, counted⟩ := lowerAll_defined ih defined fresh
      exact ⟨.group next connective rules, next + 1, by rw [lower, made]; rfl, .group mirrors,
        Nat.le_succ_of_le counted, fun _ => ⟨counted, Nat.lt_succ_self _⟩⟩

theorem lowerAll_undefined {exprs : List Expr} {name : String}
    (each : ∀ expr ∈ exprs, expr.undefined? vocabulary.registry = some name → ∀ fresh,
      expr.lower vocabulary target fresh = .error (.undefinedRule name target))
    (undefined : (referencesOf exprs).find? (· ∉ vocabulary.registry.names) = some name)
    (fresh : RuleId) :
    lowerAll vocabulary target exprs fresh = .error (.undefinedRule name target) := by
  induction exprs generalizing fresh with
  | nil => simp [referencesOf] at undefined
  | cons expr rest ih =>
      simp only [List.forall_mem_cons] at each
      rw [referencesOf, List.find?_append] at undefined
      cases first : expr.undefined? vocabulary.registry with
      | some other =>
          rw [undefined?] at first
          rw [first] at undefined
          obtain rfl := Option.some.inj undefined
          rw [lowerAll, each.1 first]
          rfl
      | none =>
          rw [undefined?] at first
          rw [first, Option.none_or] at undefined
          obtain ⟨rule, next, made, _⟩ := lower_defined expr (by simpa using first) fresh
          rw [lowerAll, made]
          change (lowerAll vocabulary target rest next >>= _) = _
          rw [ih each.2 undefined]
          rfl

theorem lower_undefined (expr : Expr) {name : String}
    (undefined : expr.undefined? vocabulary.registry = some name) (fresh : RuleId) :
    expr.lower vocabulary target fresh = .error (.undefinedRule name target) := by
  induction expr generalizing fresh with
  | reference other =>
      simp only [undefined?, references, List.find?_singleton] at undefined
      split at undefined
      next missing =>
        obtain rfl := Option.some.inj undefined
        rw [lower, Registry.get?_eq_none_iff.mpr (by simpa using missing)]
      next => simp at undefined
  | constant allowed => simp [undefined?, references] at undefined
  | not operand ih =>
      rw [lower, ih undefined]
      rfl
  | group connective operands ih =>
      rw [lower, lowerAll_undefined ih undefined]
      rfl

theorem mirrors_reference {name : String} {rule : Rule} :
    (Expr.reference name).Mirrors vocabulary rule ↔ vocabulary.registry.get? name = some rule := by
  constructor
  · rintro ⟨⟩
    assumption
  · exact .reference

theorem Mirrors.defined {expr : Expr} {rule : Rule} (mirrors : expr.Mirrors vocabulary rule) :
    ∀ name ∈ expr.references, name ∈ vocabulary.registry.names := by
  induction expr generalizing rule with
  | reference name =>
      have known : name ∈ vocabulary.registry.names := by
        apply Decidable.byContradiction
        intro missing
        have found := mirrors_reference.mp mirrors
        rw [Registry.get?_eq_none_iff.mpr missing] at found
        cases found
      simpa [references] using known
  | constant allowed => simp [references]
  | not operand ih =>
      cases mirrors with
      | not inner => exact ih inner
  | group connective operands ih =>
      cases mirrors with
      | @group _ _ _ rules each =>
          rw [references]
          induction each with
          | nil => simp [referencesOf]
          | cons head tail rest =>
              simp only [List.forall_mem_cons] at ih
              simp only [referencesOf, List.forall_mem_append]
              exact ⟨ih.1 head, rest ih.2⟩

end

/-- Expressions that one document makes one rule of. -/
def Agree (registry : Registry) (expr other : Expr) : Prop :=
  expr = other ∨ ∃ first second rule same, expr = .reference first ∧ other = .reference second ∧
    registry.get? first = some rule ∧ registry.get? second = some same ∧ rule.id = same.id

theorem Agree.refl {registry : Registry} {expr : Expr} : expr.Agree registry expr := .inl rfl

theorem Agree.symm {registry : Registry} {expr other : Expr} (agree : expr.Agree registry other) :
    other.Agree registry expr := by
  rcases agree with rfl | ⟨first, second, rule, same, rfl, rfl, found, also, id⟩
  · exact .refl
  · exact .inr ⟨second, first, same, rule, rfl, rfl, also, found, id.symm⟩

end Expr

structure Vocabulary.Ordered (vocabulary : Vocabulary) : Prop where
  named : ∀ entry ∈ vocabulary.registry, entry.2.id < vocabulary.allow.id
  constants : vocabulary.allow.id < vocabulary.deny.id

/-- The rules that were made, each expression having one and each composite one its own. -/
structure Table (vocabulary : Vocabulary) (fresh : RuleId) (compiled : List (Expr × Rule)) :
    Prop where
  mirrors : ∀ entry ∈ compiled, entry.1.Mirrors vocabulary entry.2
  own : ∀ entry ∈ compiled, entry.1.isComposite →
    vocabulary.deny.id < entry.2.id ∧ entry.2.id < fresh
  single : ∀ entry ∈ compiled, ∀ other ∈ compiled, entry.1 = other.1 → entry = other
  distinct : ∀ entry ∈ compiled, ∀ other ∈ compiled, entry.1.isComposite → other.1.isComposite →
    entry.2.id = other.2.id → entry = other

namespace Table

variable {vocabulary : Vocabulary} {fresh next : RuleId} {compiled : List (Expr × Rule)}
  {expr : Expr} {rule : Rule}

theorem empty : Table vocabulary fresh [] := ⟨nofun, nofun, nofun, nofun⟩

theorem add (table : Table vocabulary fresh compiled) (later : vocabulary.deny.id < fresh)
    (new : ∀ entry ∈ compiled, entry.1 ≠ expr) (lowered : expr.Lowered vocabulary fresh rule next) :
    Table vocabulary next (compiled ++ [(expr, rule)]) := by
  have counted := lowered.counted
  constructor
  · intro entry member
    rcases List.mem_append.mp member with member | member
    · exact table.mirrors entry member
    · obtain rfl := List.mem_singleton.mp member
      exact lowered.mirrors
  · intro entry member composite
    rcases List.mem_append.mp member with member | member
    · have := table.own entry member composite
      exact ⟨this.1, Nat.lt_of_lt_of_le this.2 counted⟩
    · obtain rfl := List.mem_singleton.mp member
      have := lowered.own composite
      exact ⟨Nat.lt_of_lt_of_le later this.1, this.2⟩
  · intro entry member other also same
    rcases List.mem_append.mp member with member | member <;>
      rcases List.mem_append.mp also with also | also
    · exact table.single entry member other also same
    · obtain rfl := List.mem_singleton.mp also
      exact absurd same (new entry member)
    · obtain rfl := List.mem_singleton.mp member
      exact absurd same.symm (new other also)
    · rw [List.mem_singleton.mp member, List.mem_singleton.mp also]
  · intro entry member other also composite too same
    rcases List.mem_append.mp member with member | member <;>
      rcases List.mem_append.mp also with also | also
    · exact table.distinct entry member other also composite too same
    · obtain rfl := List.mem_singleton.mp also
      -- the identities of earlier rules are below those of the new one
      have before := table.own entry member composite
      have after := lowered.own too
      grind
    · obtain rfl := List.mem_singleton.mp member
      have before := table.own other also too
      have after := lowered.own composite
      grind
    · rw [List.mem_singleton.mp member, List.mem_singleton.mp also]

theorem kinds (table : Table vocabulary fresh compiled) (ordered : vocabulary.Ordered)
    {entry : Expr × Rule} (member : entry ∈ compiled) :
    (∃ name, entry.1 = .reference name ∧ vocabulary.registry.get? name = some entry.2 ∧
      entry.2.id < vocabulary.allow.id) ∨
    (entry.1 = .constant true ∧ entry.2.id = vocabulary.allow.id) ∨
    (entry.1 = .constant false ∧ entry.2.id = vocabulary.deny.id) ∨
    (entry.1.isComposite ∧ vocabulary.deny.id < entry.2.id) := by
  obtain ⟨expr, rule⟩ := entry
  have own := table.own _ member
  cases table.mirrors _ member with
  | reference found =>
      exact .inl ⟨_, rfl, found, ordered.named _ (Registry.mem_of_get? found)⟩
  | allow => exact .inr (.inl ⟨rfl, rfl⟩)
  | deny => exact .inr (.inr (.inl ⟨rfl, rfl⟩))
  | not _ => exact .inr (.inr (.inr ⟨rfl, (own rfl).1⟩))
  | group _ => exact .inr (.inr (.inr ⟨rfl, (own rfl).1⟩))

theorem id_eq_iff (table : Table vocabulary fresh compiled) (ordered : vocabulary.Ordered)
    {entry other : Expr × Rule} (member : entry ∈ compiled) (also : other ∈ compiled) :
    entry.2.id = other.2.id ↔ entry.1.Agree vocabulary.registry other.1 := by
  have constants := ordered.constants
  constructor
  · intro same
    -- identities of different kinds lie in different ranges
    rcases table.kinds ordered member with ⟨first, isFirst, found, below⟩ | ⟨isAllow, allow⟩ |
      ⟨isDeny, deny⟩ | ⟨composite, above⟩
    · rcases table.kinds ordered also with ⟨second, isSecond, too, _⟩ | other | other | other
      · exact .inr ⟨first, second, entry.2, other.2, isFirst, isSecond, found, too, same⟩
      all_goals grind
    · rcases table.kinds ordered also with ⟨_, _, _, _⟩ | ⟨alsoAllow, _⟩ | other | other
      · grind
      · exact .inl (isAllow.trans alsoAllow.symm)
      all_goals grind
    · rcases table.kinds ordered also with ⟨_, _, _, _⟩ | other | ⟨alsoDeny, _⟩ | other
      · grind
      · grind
      · exact .inl (isDeny.trans alsoDeny.symm)
      · grind
    · rcases table.kinds ordered also with ⟨_, _, _, _⟩ | other | other | ⟨compound, _⟩
      · grind
      · grind
      · grind
      · have one := table.distinct entry member other also composite compound same
        exact .inl (congrArg Prod.fst one)
  · rintro (same | ⟨first, second, rule, twin, isFirst, isSecond, found, too, same⟩)
    · rw [table.single entry member other also same]
    · have first := table.mirrors entry member
      have second := table.mirrors other also
      rw [isFirst, Expr.mirrors_reference] at first
      rw [isSecond, Expr.mirrors_reference] at second
      rw [Option.some.inj (first.symm.trans found), Option.some.inj (second.symm.trans too), same]

theorem compiled?_of_mem (table : Table vocabulary fresh compiled)
    (member : (expr, rule) ∈ compiled) : compiled? expr compiled = some rule := by
  have found : (compiled.find? fun entry => entry.1.same expr).isSome :=
    List.find?_isSome.mpr ⟨_, member, (Expr.same_iff _ _).mpr rfl⟩
  obtain ⟨entry, first⟩ := Option.isSome_iff_exists.mp found
  have same : entry.1 = expr := by simpa [Expr.same_iff] using List.find?_some first
  rw [compiled?, first, table.single _ (List.mem_of_find?_eq_some first) _ member same]
  rfl

end Table

theorem mem_of_compiled? {expr : Expr} {rule : Rule} {compiled : List (Expr × Rule)}
    (found : compiled? expr compiled = some rule) : (expr, rule) ∈ compiled := by
  obtain ⟨entry, first, rfl⟩ := Option.map_eq_some_iff.mp found
  have same : entry.1 = expr := by simpa [Expr.same_iff] using List.find?_some first
  exact same ▸ List.mem_of_find?_eq_some first

theorem not_mem_of_compiled? {expr : Expr} {compiled : List (Expr × Rule)}
    (missing : compiled? expr compiled = none) : ∀ entry ∈ compiled, entry.1 ≠ expr := by
  intro entry member same
  have none := List.find?_eq_none.mp (Option.map_eq_none_iff.mp missing) entry member
  exact none ((Expr.same_iff _ _).mpr same)

def ruleOf (vocabulary : Vocabulary) (compiled : List (Expr × Rule)) (expr : Expr) : Rule :=
  (compiled? expr compiled).getD vocabulary.deny

section

variable {vocabulary : Vocabulary}

theorem compileRules_step {expr : Expr}
    (defined : ∀ name ∈ expr.references, name ∈ vocabulary.registry.names)
    {compiled : List (Expr × Rule)} {fresh : RuleId} (table : Table vocabulary fresh compiled)
    (later : vocabulary.deny.id < fresh) (target : Target) (rest : List (Target × Expr))
    (registrations : Registrations) :
    ∃ rule held middle, compileRules vocabulary ((target, expr) :: rest) compiled registrations
        fresh = compileRules vocabulary rest held (registrations.add target rule) middle ∧
      Table vocabulary middle held ∧ vocabulary.deny.id < middle ∧ (expr, rule) ∈ held ∧
      ∀ entry ∈ compiled, entry ∈ held := by
  cases found : compiled? expr compiled with
  | some rule =>
      exact ⟨rule, compiled, fresh, by rw [compileRules, found], table, later,
        mem_of_compiled? found, fun _ member => member⟩
  | none =>
      obtain ⟨rule, middle, made, lowered⟩ :=
        (expr.lower_defined : expr.Lowers vocabulary target) defined fresh
      refine ⟨rule, compiled ++ [(expr, rule)], middle, ?_,
        table.add later (not_mem_of_compiled? found) lowered,
        Nat.lt_of_lt_of_le later lowered.counted, by simp, fun _ member => by simp [member]⟩
      rw [compileRules, found]
      simp only [made]
      rfl

theorem compileRules_defined (rules : List (Target × Expr))
    (defined : ∀ entry ∈ rules, ∀ name ∈ entry.2.references, name ∈ vocabulary.registry.names)
    {compiled : List (Expr × Rule)} {fresh : RuleId} (registrations : Registrations)
    (table : Table vocabulary fresh compiled) (later : vocabulary.deny.id < fresh) :
    ∃ all next, compileRules vocabulary rules compiled registrations fresh =
        .ok (registrations.addAll (rules.map fun entry =>
          (entry.1, ruleOf vocabulary all entry.2)), next) ∧
      Table vocabulary next all ∧ (∀ entry ∈ compiled, entry ∈ all) ∧
      ∀ entry ∈ rules, (entry.2, ruleOf vocabulary all entry.2) ∈ all := by
  induction rules generalizing compiled fresh registrations with
  | nil => exact ⟨compiled, fresh, rfl, table, fun _ member => member, nofun⟩
  | cons entry rest ih =>
      obtain ⟨target, expr⟩ := entry
      simp only [List.forall_mem_cons] at defined
      obtain ⟨rule, held, middle, step, started, after, member, kept⟩ :=
        compileRules_step defined.1 table later target rest registrations
      obtain ⟨all, next, made, full, grown, covered⟩ :=
        ih defined.2 (registrations.add target rule) started after
      have here : ruleOf vocabulary all expr = rule := by
        rw [ruleOf, full.compiled?_of_mem (grown _ member), Option.getD_some]
      refine ⟨all, next, ?_, full, fun entry also => grown entry (kept entry also), ?_⟩
      · rw [step, made, List.map_cons]
        simp only [Registrations.addAll, List.foldl_cons, here]
      · exact List.forall_mem_cons.mpr ⟨here ▸ grown _ member, covered⟩

def undefined? (registry : Registry) (rules : List (Target × Expr)) : Option (String × Target) :=
  rules.findSome? fun entry => (entry.2.undefined? registry).map fun name => (name, entry.1)

theorem undefined?_eq_none {registry : Registry} {rules : List (Target × Expr)} :
    undefined? registry rules = none ↔
      ∀ entry ∈ rules, ∀ name ∈ entry.2.references, name ∈ registry.names := by
  simp [undefined?, Expr.undefined?]

theorem compileRules_undefined (rules : List (Target × Expr)) {name : String} {target : Target}
    (undefined : undefined? vocabulary.registry rules = some (name, target))
    {compiled : List (Expr × Rule)} {fresh : RuleId} (registrations : Registrations)
    (table : Table vocabulary fresh compiled) (later : vocabulary.deny.id < fresh) :
    compileRules vocabulary rules compiled registrations fresh =
      .error (.undefinedRule name target) := by
  induction rules generalizing compiled fresh registrations with
  | nil => simp [undefined?] at undefined
  | cons entry rest ih =>
      obtain ⟨site, expr⟩ := entry
      rw [undefined?, List.findSome?_cons] at undefined
      cases first : expr.undefined? vocabulary.registry with
      | none =>
          rw [first] at undefined
          have defined : ∀ name ∈ expr.references, name ∈ vocabulary.registry.names := by
            simpa [Expr.undefined?] using first
          obtain ⟨rule, held, middle, step, started, after, _, _⟩ :=
            compileRules_step defined table later site rest registrations
          rw [step, ih undefined _ started after]
      | some missing =>
          rw [first] at undefined
          cases undefined
          -- what was made before has its references defined
          have unmade : compiled? expr compiled = none := by
            cases found : compiled? expr compiled with
            | none => rfl
            | some rule =>
                have mirrors := table.mirrors _ (mem_of_compiled? found)
                have known := mirrors.defined name (List.mem_of_find?_eq_some first)
                simpa [known] using List.find?_some first
          rw [compileRules, unmade]
          simp only [Expr.lower_undefined expr first]
          rfl

end

end Policy

end FieldGuard
