import FieldGuard.Proofs.Leaves
import FieldGuard.Proofs.Lowering

set_option autoImplicit false

namespace FieldGuard

namespace Registry

def Repeats (before : Registry) (entry : String × Rule) : Prop := entry.1 ∈ before.names

theorem repeats_seen {seen : List String} {first : String × Rule} :
    (fun before entry => entry.1 ∈ seen ∨ Repeats (first :: before) entry) =
      fun before entry => entry.1 ∈ first.1 :: seen ∨ Repeats before entry := by
  funext before entry
  simp only [Repeats, names, List.map_cons, List.mem_cons, eq_iff_iff]
  exact ⟨fun known => by rcases known with known | known | known <;> simp [known],
    fun known => by rcases known with (known | known) | known <;> simp [known]⟩

theorem repeated?_outcome {registry : Registry} {seen : List String} :
    (Never (fun before entry => entry.1 ∈ seen ∨ Repeats before entry) registry →
      repeated? seen registry = none) ∧
    ∀ entry, Earliest (fun before entry => entry.1 ∈ seen ∨ Repeats before entry) registry entry →
      repeated? seen registry = some entry.1 := by
  induction registry generalizing seen with
  | nil => exact ⟨fun _ => rfl, fun entry earliest => absurd earliest not_earliest_nil⟩
  | cons first rest ih =>
      have now : (first.1 ∈ seen ∨ Repeats [] first) ↔ first.1 ∈ seen := by simp [Repeats, names]
      simp only [never_cons, earliest_cons, repeats_seen, now]
      by_cases known : first.1 ∈ seen
      · simp [repeated?, known]
      · have later := @ih (first.1 :: seen)
        simpa [repeated?, known] using later

theorem never_repeats {registry : Registry} : Never Repeats registry ↔ registry.names.Nodup := by
  have related : Repeats = fun before entry => ∃ earlier ∈ before, earlier.1 = entry.1 := by
    funext before entry
    simp [Repeats, names]
  rw [related, never_iff_pairwise, names, List.Nodup, List.pairwise_map]

theorem repeated?_start {registry : Registry} :
    (registry.names.Nodup → repeated? [] registry = none) ∧
    ∀ entry, Earliest Repeats registry entry → repeated? [] registry = some entry.1 := by
  simpa [never_repeats] using @repeated?_outcome registry []

end Registry

namespace Registrations

/-! ### The first fault in a list -/

section

variable {α : Type} {fault : List α → α → TableError → Prop} {first : α} {rest entries : List α}
  {error : TableError}

def Faultless (fault : List α → α → TableError → Prop) (entries : List α) : Prop :=
  Never (fun before entry => ∃ error, fault before entry error) entries

def FirstFault (fault : List α → α → TableError → Prop) (entries : List α) (error : TableError) :
    Prop :=
  ∃ before entry after, entries = before ++ entry :: after ∧ fault before entry error ∧
    Faultless fault before

theorem firstFault_cons : FirstFault fault (first :: rest) error ↔ fault [] first error ∨
    (¬ ∃ error, fault [] first error) ∧ FirstFault (fun before => fault (first :: before)) rest error := by
  constructor
  · rintro ⟨before, entry, after, same, found, faultless⟩
    cases before with
    | nil =>
      cases same
      exact .inl found
    | cons head before =>
      cases same
      obtain ⟨sound, faultless⟩ := never_cons.mp faultless
      exact .inr ⟨sound, before, entry, after, rfl, found, faultless⟩
  · rintro (found | ⟨sound, before, entry, after, rfl, found, faultless⟩)
    · exact ⟨[], first, rest, rfl, found, never_nil⟩
    · exact ⟨first :: before, entry, after, rfl, found, never_cons.mpr ⟨sound, faultless⟩⟩

theorem firstFault_or_faultless (fault : List α → α → TableError → Prop) (entries : List α) :
    (∃ error, FirstFault fault entries error) ∨ Faultless fault entries := by
  rcases earliest_or_never (fun before entry => ∃ error, fault before entry error) entries with
    ⟨entry, before, after, split, ⟨error, found⟩, never⟩ | never
  · exact .inl ⟨error, before, entry, after, split, found, never⟩
  · exact .inr never

end

/-! ### Collecting by keys -/

section

variable {κ : Type}

def Clash (before : List (κ × Rule)) (entry : κ × Rule) : Prop :=
  ∃ earlier ∈ before, earlier.1 = entry.1 ∧ earlier.2.id ≠ entry.2.id

def Unanimous (entries : List (κ × Rule)) : Prop :=
  ∀ entry ∈ entries, ∀ other ∈ entries, entry.1 = other.1 → entry.2.id = other.2.id

theorem never_clash {entries : List (κ × Rule)} : Never Clash entries ↔ Unanimous entries := by
  let Apart (entry other : κ × Rule) : Prop := entry.1 = other.1 ∧ entry.2.id ≠ other.2.id
  have irreflexive : ∀ entry, ¬ Apart entry entry := fun _ apart => apart.2 rfl
  have symmetric : ∀ entry other, Apart entry other → Apart other entry :=
    fun _ _ apart => ⟨apart.1.symm, apart.2.symm⟩
  have quiet : Never Clash entries ↔ _ := never_iff_forall irreflexive symmetric
  simpa only [Unanimous, Apart, not_and, not_not] using quiet

/-- What is wrong with an entry: its key, or else an earlier rule of the key. -/
def Fault (check : κ → Except TableError Unit) (conflict : κ → TableError)
    (before : List (κ × Rule)) (entry : κ × Rule) (error : TableError) : Prop :=
  check entry.1 = .error error ∨
    check entry.1 = .ok () ∧ Clash before entry ∧ conflict entry.1 = error

variable {check : κ → Except TableError Unit} {conflict : κ → TableError}

theorem exists_fault_iff {before : List (κ × Rule)} {entry : κ × Rule} :
    (∃ error, Fault check conflict before entry error) ↔
      ¬ check entry.1 = .ok () ∨ Clash before entry := by
  simp only [Fault]
  cases check entry.1 with
  | error refusal => simp
  | ok accepted => simp

theorem faultless_iff {entries : List (κ × Rule)} : Faultless (Fault check conflict) entries ↔
    (∀ entry ∈ entries, check entry.1 = .ok ()) ∧ Unanimous entries := by
  simp only [Faultless, exists_fault_iff, never_or, never_clash, not_not]

end

structure Found {κ : Type} [DecidableEq κ] (seen found : List (κ × Rule)) : Prop where
  covers : ∀ entry ∈ seen, ∃ rule, found.lookup entry.1 = some rule ∧ rule.id = entry.2.id
  drawn : ∀ key rule, found.lookup key = some rule → (key, rule) ∈ seen

variable {κ : Type} [DecidableEq κ] {check : κ → Except TableError Unit} {conflict : κ → TableError}
  {seen found : List (κ × Rule)}

theorem Found.clash_iff (faithful : Found seen found) {key : κ} {rule : Rule} :
    Clash seen (key, rule) ↔ ∃ earlier, found.lookup key = some earlier ∧ earlier.id ≠ rule.id := by
  constructor
  · rintro ⟨⟨key, earlier⟩, member, rfl, different⟩
    obtain ⟨first, located, same⟩ := faithful.covers _ member
    exact ⟨first, located, fun id => different (same.symm.trans id)⟩
  · rintro ⟨earlier, located, different⟩
    exact ⟨(key, earlier), faithful.drawn _ _ located, rfl, different⟩

theorem Found.add (faithful : Found seen found) {key : κ} (rule : Rule)
    (new : found.lookup key = none) :
    Found (seen ++ [(key, rule)]) (found ++ [(key, rule)]) := by
  constructor
  · intro entry member
    rcases List.mem_append.mp member with member | member
    · obtain ⟨first, located, same⟩ := faithful.covers entry member
      exact ⟨first, by rw [List.lookup_append, located]; rfl, same⟩
    · obtain rfl := List.mem_singleton.mp member
      exact ⟨rule, by simp [lookup_added, new], rfl⟩
  · intro other first located
    rw [lookup_added found key other rule new] at located
    split at located
    next same =>
      obtain rfl := Option.some.inj located
      simp [same]
    next => exact List.mem_append_left _ (faithful.drawn other first located)

theorem Found.keep (faithful : Found seen found) {key : κ} {rule earlier : Rule}
    (located : found.lookup key = some earlier) (same : earlier.id = rule.id) :
    Found (seen ++ [(key, rule)]) found := by
  constructor
  · intro entry member
    rcases List.mem_append.mp member with member | member
    · exact faithful.covers entry member
    · obtain rfl := List.mem_singleton.mp member
      exact ⟨earlier, located, same⟩
  · exact fun key rule drawn => List.mem_append_left _ (faithful.drawn key rule drawn)

theorem collect_cons {key : κ} (accepted : check key = .ok ()) (rule : Rule) (rest : List (κ × Rule)) :
    collect check conflict found ((key, rule) :: rest) =
      (found.lookup key).elim (collect check conflict (found ++ [(key, rule)]) rest) fun earlier =>
        if earlier.id = rule.id then collect check conflict found rest else .error (conflict key) := by
  rw [collect, accepted]
  cases found.lookup key <;> rfl

theorem collect_outcomes (check : κ → Except TableError Unit) (conflict : κ → TableError)
    (entries : List (κ × Rule)) (faithful : Found seen found) :
    (Faultless (fun before => Fault check conflict (seen ++ before)) entries →
      ∃ table, collect check conflict found entries = .ok table) ∧
    ∀ error, FirstFault (fun before => Fault check conflict (seen ++ before)) entries error →
      collect check conflict found entries = .error error := by
  induction entries generalizing seen found with
  | nil =>
    refine ⟨fun _ => ⟨found, rfl⟩, ?_⟩
    rintro error ⟨before, entry, after, split, _⟩
    simp at split
  | cons entry rest ih =>
    obtain ⟨key, rule⟩ := entry
    have shift : (fun before => Fault check conflict (seen ++ (key, rule) :: before)) =
        fun before => Fault check conflict ((seen ++ [(key, rule)]) ++ before) := by
      simp
    rw [Faultless, never_cons]
    simp only [firstFault_cons, List.append_nil, shift, exists_fault_iff]
    cases checked : check key with
    | error refusal => simp [Fault, collect, checked, bind, Except.bind]
    | ok accepted =>
      simp only [Fault, collect_cons checked, checked, faithful.clash_iff]
      cases located : found.lookup key with
      | none =>
        have later := ih (faithful.add rule located)
        simpa [Faultless, exists_fault_iff] using later
      | some earlier =>
        by_cases same : earlier.id = rule.id
        · have later := ih (faithful.keep located same)
          simpa [same, Faultless, exists_fault_iff] using later
        · simp [same]

theorem found_nothing : Found ([] : List (κ × Rule)) [] :=
  ⟨nofun, fun _ _ drawn => nomatch drawn⟩

theorem collect_ok_iff {entries : List (κ × Rule)} :
    (∃ table, collect check conflict [] entries = .ok table) ↔
      Faultless (Fault check conflict) entries := by
  obtain ⟨collects, fails⟩ := collect_outcomes check conflict entries found_nothing
  refine ⟨?_, collects⟩
  rintro ⟨table, collected⟩
  rcases firstFault_or_faultless (Fault check conflict) entries with ⟨error, first⟩ | faultless
  · cases collected.symm.trans (fails error first)
  · exact faultless

theorem collect_error_iff {entries : List (κ × Rule)} {error : TableError} :
    collect check conflict [] entries = .error error ↔
      FirstFault (Fault check conflict) entries error := by
  obtain ⟨collects, fails⟩ := collect_outcomes check conflict entries found_nothing
  refine ⟨?_, fails error⟩
  intro failed
  rcases firstFault_or_faultless (Fault check conflict) entries with ⟨other, first⟩ | faultless
  · cases failed.symm.trans (fails other first)
    exact first
  · obtain ⟨table, collected⟩ := collects faultless
    cases failed.symm.trans collected

theorem collect_accepted {entries : List (κ × Rule)} (conflict : κ → TableError)
    (accepted : ∀ entry ∈ entries, check entry.1 = .ok ()) :
    (Never Clash entries → ∃ table, collect check conflict [] entries = .ok table) ∧
    ∀ entry, Earliest Clash entries entry →
      collect check conflict [] entries = .error (conflict entry.1) := by
  constructor
  · intro never
    exact collect_ok_iff.mpr (faultless_iff.mpr ⟨accepted, never_clash.mp never⟩)
  · rintro entry ⟨before, after, rfl, clash, never⟩
    apply collect_error_iff.mpr
    refine ⟨before, entry, after, rfl, .inr ⟨accepted entry (by simp), clash, rfl⟩, ?_⟩
    exact faultless_iff.mpr
      ⟨fun other member => accepted other (by simp [member]), never_clash.mp never⟩

theorem single_eq_collect (found : Option Rule) (rules : List Rule) :
    single found rules =
      (collect (fun _ => .ok ()) (fun _ => .conflictingFallback) (found.toList.map fun rule => ((), rule))
        (rules.map fun rule => ((), rule))).map fun table => table.head?.map Prod.snd := by
  induction rules generalizing found with
  | nil => cases found <;> rfl
  | cons rule rest ih =>
      cases found with
      | none => exact ih (some rule)
      | some earlier =>
          simp only [single, List.map_cons, collect, Option.toList_some]
          change _ = Except.map _ (if earlier.id = rule.id then _ else _)
          split
          · exact ih (some earlier)
          · rfl

end Registrations

/-! ### Tiers -/

namespace Policy

inductive Tier where
  | field
  | type
  | fallback
  deriving DecidableEq

def Target.tier : Target → Tier
  | .field _ _ => .field
  | .type _ => .type
  | .fallback => .fallback

def Clashes (registry : Registry) (tier : Tier) (before : List (Target × Expr))
    (entry : Target × Expr) : Prop :=
  entry.1.tier = tier ∧
    ∃ earlier ∈ before, earlier.1 = entry.1 ∧ ¬ earlier.2.Agree registry entry.2

structure Keys {κ : Type} (key? : Target → Option κ) (make : κ → Target) (tier : Tier) :
    Prop where
  made : ∀ target key, key? target = some key ↔ target = make key
  known : ∀ target, target.tier = tier ↔ ∃ key, target = make key

def Target.fieldKey? : Target → Option (String × String)
  | .field parentType name => some (parentType, name)
  | _ => none

def Target.typeKey? : Target → Option String
  | .type parentType => some parentType
  | _ => none

def Target.fallbackKey? : Target → Option Unit
  | .fallback => some ()
  | _ => none

theorem fieldKeys : Keys Target.fieldKey? (fun key => .field key.1 key.2) .field where
  made target key := by cases target <;> simp [Target.fieldKey?, Prod.ext_iff]
  known target := by cases target <;> simp [Target.tier]

theorem typeKeys : Keys Target.typeKey? .type .type where
  made target key := by cases target <;> simp [Target.typeKey?]
  known target := by cases target <;> simp [Target.tier]

theorem fallbackKeys : Keys Target.fallbackKey? (fun _ => .fallback) .fallback where
  made target key := by cases target <;> simp [Target.fallbackKey?]
  known target := by cases target <;> simp [Target.tier]

def keyed {κ : Type} (key? : Target → Option κ) (rule : Expr → Rule) (entry : Target × Expr) :
    Option (κ × Rule) :=
  (key? entry.1).map fun key => (key, rule entry.2)

section

variable {κ : Type} {key? : Target → Option κ} {make : κ → Target} {tier : Tier}
  {registry : Registry} {rule : Expr → Rule}

theorem keyed_eq_some (keys : Keys key? make tier) {entry : Target × Expr} {keyedEntry : κ × Rule} :
    keyed key? rule entry = some keyedEntry ↔
      entry.1 = make keyedEntry.1 ∧ rule entry.2 = keyedEntry.2 := by
  rw [keyed, Option.map_eq_some_iff]
  constructor
  · rintro ⟨key, found, rfl⟩
    exact ⟨(keys.made _ _).mp found, rfl⟩
  · rintro ⟨found, same⟩
    exact ⟨keyedEntry.1, (keys.made _ _).mpr found, by rw [same]⟩

theorem selected_iff_clashes (keys : Keys key? make tier) {before : List (Target × Expr)}
    {entry : Target × Expr}
    (identified : ∀ earlier ∈ before, (rule earlier.2).id = (rule entry.2).id ↔
      earlier.2.Agree registry entry.2) :
    Selected (keyed key? rule) Registrations.Clash before entry ↔
      Clashes registry tier before entry := by
  simp only [Selected, Registrations.Clash, Clashes, keys.known, List.mem_filterMap,
    keyed_eq_some keys]
  constructor
  · rintro ⟨⟨key, _⟩, ⟨isKey, rfl⟩, ⟨_, _⟩, ⟨earlier, member, made, rfl⟩, rfl, different⟩
    refine ⟨⟨_, isKey⟩, earlier, member, made.trans isKey.symm, ?_⟩
    exact fun agree => different ((identified earlier member).mpr agree)
  · rintro ⟨⟨key, isKey⟩, earlier, member, same, apart⟩
    refine ⟨(key, rule entry.2), ⟨isKey, rfl⟩, (key, rule earlier.2),
      ⟨earlier, member, same.trans isKey, rfl⟩, rfl, ?_⟩
    exact fun id => apart ((identified earlier member).mp id)

theorem collect_tier [DecidableEq κ] (keys : Keys key? make tier) {rules : List (Target × Expr)}
    (identified : ∀ earlier ∈ rules, ∀ entry ∈ rules,
      (rule earlier.2).id = (rule entry.2).id ↔ earlier.2.Agree registry entry.2)
    (check : κ → Except TableError Unit) (conflict : κ → TableError)
    (accepted : ∀ entry ∈ rules, ∀ key, entry.1 = make key → check key = .ok ()) :
    (Never (Clashes registry tier) rules → ∃ table,
      Registrations.collect check conflict [] (rules.filterMap (keyed key? rule)) = .ok table) ∧
    ∀ entry, Earliest (Clashes registry tier) rules entry → ∃ key, entry.1 = make key ∧
      Registrations.collect check conflict [] (rules.filterMap (keyed key? rule)) =
        .error (conflict key) := by
  have checks : ∀ entry ∈ rules.filterMap (keyed key? rule), check entry.1 = .ok () := by
    intro keyedEntry member
    obtain ⟨entry, found, made⟩ := List.mem_filterMap.mp member
    exact accepted entry found _ ((keyed_eq_some keys).mp made).1
  have same (before : List (Target × Expr)) (entry : Target × Expr) (after : List (Target × Expr))
      (split : rules = before ++ entry :: after) :
      Selected (keyed key? rule) Registrations.Clash before entry ↔
        Clashes registry tier before entry :=
    selected_iff_clashes keys fun earlier member =>
      identified earlier (by simp [split, member]) entry (by simp [split])
  obtain ⟨quiet, clash⟩ := Registrations.collect_accepted conflict checks
  constructor
  · intro never
    exact quiet (never_filterMap.mpr ((never_congr same).mpr never))
  · intro entry earliest
    obtain ⟨key, isKey⟩ : ∃ key, entry.1 = make key := by
      obtain ⟨_, _, _, ⟨inTier, _⟩, _⟩ := earliest
      exact (keys.known _).mp inTier
    refine ⟨key, isKey, clash (key, rule entry.2) ?_⟩
    exact earliest_filterMap.mpr
      ⟨entry, (keyed_eq_some keys).mpr ⟨isKey, rfl⟩, (earliest_congr same).mpr earliest⟩

end

theorem addAll_eq (rules : List (Target × Expr)) (rule : Expr → Rule)
    (registrations : Registrations) :
    registrations.addAll (rules.map fun entry => (entry.1, rule entry.2)) =
      { registrations with
        fields := registrations.fields ++ rules.filterMap (keyed Target.fieldKey? rule)
        typeFallbacks := registrations.typeFallbacks ++ rules.filterMap (keyed Target.typeKey? rule)
        fallbacks := registrations.fallbacks ++
          (rules.filterMap (keyed Target.fallbackKey? rule)).map Prod.snd } := by
  induction rules generalizing registrations with
  | nil => simp [Registrations.addAll]
  | cons entry rest ih =>
      obtain ⟨target, expr⟩ := entry
      have step := ih (registrations.add target (rule expr))
      simp only [Registrations.addAll, List.map_cons, List.foldl_cons] at step ⊢
      rw [step]
      cases target <;>
        simp [Registrations.add, List.filterMap_cons, keyed, Target.fieldKey?, Target.typeKey?,
          Target.fallbackKey?]

def registered (rules : List (Target × Expr)) (rule : Expr → Rule) (policy : DefaultPolicy) :
    Registrations where
  fields := rules.filterMap (keyed Target.fieldKey? rule)
  typeFallbacks := rules.filterMap (keyed Target.typeKey? rule)
  fallbacks := (rules.filterMap (keyed Target.fallbackKey? rule)).map Prod.snd
  defaultPolicy := policy

theorem addAll_empty (rules : List (Target × Expr)) (rule : Expr → Rule) (policy : DefaultPolicy) :
    Registrations.addAll { Registrations.empty with defaultPolicy := policy }
      (rules.map fun entry => (entry.1, rule entry.2)) = registered rules rule policy := by
  rw [addAll_eq]
  simp [Registrations.empty, registered]

def Target.conflict : Target → TableError
  | .field parentType name => .conflictingField parentType name
  | .type parentType => .conflictingTypeFallback parentType
  | .fallback => .conflictingFallback

def Tier.sooner : Tier → List Tier
  | .field => []
  | .type => [.field]
  | .fallback => [.field, .type]

def Target.Named : Target → Prop
  | .field parentType name => ¬ Text.blank parentType ∧ ¬ Text.blank name
  | .type parentType => ¬ Text.blank parentType
  | .fallback => True

theorem build_outcome {registry : Registry} {rules : List (Target × Expr)} {rule : Expr → Rule}
    (identified : ∀ earlier ∈ rules, ∀ entry ∈ rules,
      (rule earlier.2).id = (rule entry.2).id ↔ earlier.2.Agree registry entry.2)
    (named : ∀ entry ∈ rules, entry.1.Named) (policy : DefaultPolicy) (fresh : RuleId) :
    ((∀ tier, Never (Clashes registry tier) rules) →
      ∃ table, (registered rules rule policy).build fresh = .ok table) ∧
    ∀ tier entry, (∀ sooner ∈ tier.sooner, Never (Clashes registry sooner) rules) →
      Earliest (Clashes registry tier) rules entry →
        (registered rules rule policy).build fresh = .error entry.1.conflict := by
  have inFields := collect_tier fieldKeys identified Registrations.checkField
    (fun key => .conflictingField key.1 key.2) <| by
      intro entry member key isKey
      have plain := named entry member
      rw [isKey] at plain
      simp [Registrations.checkField, plain.1, plain.2]
  have inTypes := collect_tier typeKeys identified Registrations.checkType
    .conflictingTypeFallback <| by
      intro entry member key isKey
      have plain := named entry member
      rw [isKey] at plain
      exact if_neg plain
  have inFallbacks := collect_tier fallbackKeys identified (fun _ => .ok ())
    (fun _ => .conflictingFallback) fun _ _ _ _ => rfl
  -- a fallback has no key, so its tier collects under the only key there is
  have single := Registrations.single_eq_collect none (registered rules rule policy).fallbacks
  simp only [Option.toList_none, List.map_nil, registered, List.map_map, Function.comp_def,
    List.map_id'] at single
  constructor
  · intro never
    obtain ⟨first, made⟩ := inFields.1 (never .field)
    obtain ⟨second, typed⟩ := inTypes.1 (never .type)
    obtain ⟨third, fell⟩ := inFallbacks.1 (never .fallback)
    simp only [Registrations.build, registered, made, typed, single, fell]
    exact ⟨_, rfl⟩
  -- the tiers before this one are built, so its fault is the one reported
  · intro tier entry sooner earliest
    cases tier with
    | field =>
        obtain ⟨key, isKey, failed⟩ := inFields.2 entry earliest
        simp only [Registrations.build, registered, failed, isKey]
        rfl
    | type =>
        obtain ⟨first, made⟩ := inFields.1 (sooner .field (by simp [Tier.sooner]))
        obtain ⟨key, isKey, failed⟩ := inTypes.2 entry earliest
        simp only [Registrations.build, registered, made, failed, isKey]
        rfl
    | fallback =>
        obtain ⟨first, made⟩ := inFields.1 (sooner .field (by simp [Tier.sooner]))
        obtain ⟨second, typed⟩ := inTypes.1 (sooner .type (by simp [Tier.sooner]))
        obtain ⟨key, isKey, failed⟩ := inFallbacks.2 entry earliest
        simp only [Registrations.build, registered, made, typed, single, failed, isKey]
        rfl

end Policy

end FieldGuard
