import FieldGuard.Proofs.Registrations

set_option autoImplicit false

namespace FieldGuard

def Text.Visible (text : String) : Prop := ∃ c ∈ text.toList, ¬ isBlank c

theorem Text.visible_iff {text : String} : Visible text ↔ blank text = false := by
  simp [blank, Visible]

namespace Registrations

inductive FieldFault (before : List ((String × String) × Rule)) :
    (String × String) × Rule → TableError → Prop
  | typeName {parentType field : String} {rule : Rule} : ¬ Text.Visible parentType →
      FieldFault before ((parentType, field), rule) (.emptyName .type (.field parentType field))
  | fieldName {parentType field : String} {rule : Rule} :
      Text.Visible parentType → ¬ Text.Visible field →
      FieldFault before ((parentType, field), rule) (.emptyName .field (.field parentType field))
  | clash {parentType field : String} {rule : Rule} :
      Text.Visible parentType → Text.Visible field → Clash before ((parentType, field), rule) →
      FieldFault before ((parentType, field), rule) (.conflictingField parentType field)

inductive TypeFault (before : List (String × Rule)) : String × Rule → TableError → Prop
  | name {parentType : String} {rule : Rule} : ¬ Text.Visible parentType →
      TypeFault before (parentType, rule) (.emptyName .type (.type parentType))
  | clash {parentType : String} {rule : Rule} :
      Text.Visible parentType → Clash before (parentType, rule) →
      TypeFault before (parentType, rule) (.conflictingTypeFallback parentType)

theorem checkField_eq_ok {key : String × String} :
    checkField key = .ok () ↔ Text.Visible key.1 ∧ Text.Visible key.2 := by
  rw [checkField, Text.visible_iff, Text.visible_iff]
  cases Text.blank key.1 <;> cases Text.blank key.2 <;> simp

theorem checkType_eq_ok {parentType : String} :
    checkType parentType = .ok () ↔ Text.Visible parentType := by
  rw [checkType, Text.visible_iff]
  cases Text.blank parentType <;> simp

theorem fieldFault_eq :
    FieldFault = Fault checkField fun key => .conflictingField key.1 key.2 := by
  ext before entry error
  constructor
  · intro fault
    cases fault with
    | typeName unseen => exact .inl (by simp_all [checkField, Text.visible_iff])
    | fieldName seen unseen => exact .inl (by simp_all [checkField, Text.visible_iff])
    | clash seen also clash => exact .inr ⟨checkField_eq_ok.mpr ⟨seen, also⟩, clash, rfl⟩
  · rintro (refused | ⟨accepted, clash, rfl⟩)
    · rw [checkField] at refused
      split at refused
      next unseen =>
        cases refused
        exact .typeName (by simpa [Text.visible_iff] using unseen)
      next seen =>
        split at refused
        next unseen =>
          cases refused
          exact .fieldName (by simpa [Text.visible_iff] using seen)
            (by simpa [Text.visible_iff] using unseen)
        next => cases refused
    · obtain ⟨seen, also⟩ := checkField_eq_ok.mp accepted
      exact .clash seen also clash

theorem typeFault_eq : TypeFault = Fault checkType .conflictingTypeFallback := by
  ext before entry error
  constructor
  · intro fault
    cases fault with
    | name unseen => exact .inl (by simp_all [checkType, Text.visible_iff])
    | clash seen clash => exact .inr ⟨checkType_eq_ok.mpr seen, clash, rfl⟩
  · rintro (refused | ⟨accepted, clash, rfl⟩)
    · rw [checkType] at refused
      split at refused
      next unseen =>
        cases refused
        exact .name (by simpa [Text.visible_iff] using unseen)
      next => cases refused
    · exact .clash (checkType_eq_ok.mp accepted) clash

theorem single_error {found : Option Rule} {rules : List Rule} {error : TableError}
    (failed : single found rules = .error error) : error = .conflictingFallback := by
  induction rules generalizing found with
  | nil => cases found <;> cases failed
  | cons rule rest ih =>
    cases found with
    | none => exact ih failed
    | some earlier =>
      rw [single] at failed
      split at failed
      · exact ih failed
      · cases failed
        rfl

theorem single_some_ok_iff {earlier : Rule} {rules : List Rule} :
    (∃ result, single (some earlier) rules = .ok result) ↔ ∀ rule ∈ rules, earlier.id = rule.id := by
  induction rules with
  | nil => simp [single]
  | cons rule rest ih =>
    rw [single, List.forall_mem_cons]
    split
    next same => simp [ih, same]
    next different => simp [different]

def Uniform (rules : List Rule) : Prop := ∀ rule ∈ rules, ∀ other ∈ rules, rule.id = other.id

theorem single_ok_iff {rules : List Rule} :
    (∃ result, single none rules = .ok result) ↔ Uniform rules := by
  cases rules with
  | nil => simp [single, Uniform]
  | cons first rest =>
    rw [single, single_some_ok_iff]
    constructor
    · intro same
      have equal : ∀ rule ∈ first :: rest, first.id = rule.id := List.forall_mem_cons.mpr ⟨rfl, same⟩
      exact fun rule member other also => (equal rule member).symm.trans (equal other also)
    · exact fun uniform rule member => uniform first (by simp) rule (by simp [member])

/-- No name is blank and no key has two rules. -/
structure Consistent (registrations : Registrations) : Prop where
  fields_named : ∀ entry ∈ registrations.fields, Text.Visible entry.1.1 ∧ Text.Visible entry.1.2
  fields : Unanimous registrations.fields
  types_named : ∀ entry ∈ registrations.typeFallbacks, Text.Visible entry.1
  typeFallbacks : Unanimous registrations.typeFallbacks
  fallbacks : Uniform registrations.fallbacks

/-- The errors that registrations can be refused with. Each of them comes before the next ones. -/
inductive Refused (registrations : Registrations) : TableError → Prop
  | field {error : TableError} :
      FirstFault FieldFault registrations.fields error → Refused registrations error
  | type {error : TableError} : Faultless FieldFault registrations.fields →
      FirstFault TypeFault registrations.typeFallbacks error → Refused registrations error
  | fallback : Faultless FieldFault registrations.fields →
      Faultless TypeFault registrations.typeFallbacks → ¬ Uniform registrations.fallbacks →
        Refused registrations .conflictingFallback

variable {registrations : Registrations} {fresh : RuleId}

theorem consistent_iff : registrations.Consistent ↔
    Faultless FieldFault registrations.fields ∧ Faultless TypeFault registrations.typeFallbacks ∧
      Uniform registrations.fallbacks := by
  simp only [fieldFault_eq, typeFault_eq, faultless_iff, checkField_eq_ok, checkType_eq_ok]
  constructor
  · rintro ⟨named, fields, also, typeFallbacks, fallbacks⟩
    exact ⟨⟨named, fields⟩, ⟨also, typeFallbacks⟩, fallbacks⟩
  · rintro ⟨⟨named, fields⟩, ⟨also, typeFallbacks⟩, fallbacks⟩
    exact ⟨named, fields, also, typeFallbacks, fallbacks⟩

theorem build_consistent (consistent : registrations.Consistent) (fresh : RuleId) :
    ∃ table, registrations.build fresh = .ok table := by
  obtain ⟨fields, types, uniform⟩ := consistent_iff.mp consistent
  rw [fieldFault_eq] at fields
  rw [typeFault_eq] at types
  obtain ⟨first, collected⟩ := collect_ok_iff.mpr fields
  obtain ⟨second, typed⟩ := collect_ok_iff.mpr types
  obtain ⟨third, fell⟩ := single_ok_iff.mpr uniform
  simp only [build, collected, typed, fell]
  exact ⟨_, rfl⟩

theorem build_refused {error : TableError} (refused : registrations.Refused error) (fresh : RuleId) :
    registrations.build fresh = .error error := by
  cases refused with
  | field first =>
    rw [fieldFault_eq] at first
    simp only [build, collect_error_iff.mpr first]
    rfl
  | type faultless first =>
    rw [fieldFault_eq] at faultless
    rw [typeFault_eq] at first
    obtain ⟨fields, collected⟩ := collect_ok_iff.mpr faultless
    simp only [build, collected, collect_error_iff.mpr first]
    rfl
  | fallback faultless also mixed =>
    rw [fieldFault_eq] at faultless
    rw [typeFault_eq] at also
    obtain ⟨fields, collected⟩ := collect_ok_iff.mpr faultless
    obtain ⟨types, typed⟩ := collect_ok_iff.mpr also
    cases fell : single none registrations.fallbacks with
    | ok result => exact absurd (single_ok_iff.mp ⟨result, fell⟩) mixed
    | error error =>
      rw [single_error fell] at fell
      simp only [build, collected, typed, fell]
      rfl

theorem consistent_or_refused (registrations : Registrations) :
    registrations.Consistent ∨ ∃ error, registrations.Refused error := by
  rcases firstFault_or_faultless FieldFault registrations.fields with ⟨error, first⟩ | fields
  · exact .inr ⟨error, .field first⟩
  rcases firstFault_or_faultless TypeFault registrations.typeFallbacks with ⟨error, first⟩ | types
  · exact .inr ⟨error, .type fields first⟩
  by_cases uniform : Uniform registrations.fallbacks
  · exact .inl (consistent_iff.mpr ⟨fields, types, uniform⟩)
  · exact .inr ⟨_, .fallback fields types uniform⟩

theorem build_ok_iff :
    (∃ table, registrations.build fresh = .ok table) ↔ registrations.Consistent := by
  refine ⟨?_, fun consistent => build_consistent consistent fresh⟩
  rintro ⟨table, built⟩
  rcases consistent_or_refused registrations with consistent | ⟨error, refused⟩
  · exact consistent
  · cases built.symm.trans (build_refused refused fresh)

theorem build_error_iff {error : TableError} :
    registrations.build fresh = .error error ↔ registrations.Refused error := by
  refine ⟨?_, fun refused => build_refused refused fresh⟩
  intro failed
  rcases consistent_or_refused registrations with consistent | ⟨other, refused⟩
  · obtain ⟨table, built⟩ := build_consistent consistent fresh
    cases failed.symm.trans built
  · cases failed.symm.trans (build_refused refused fresh)
    exact refused

end Registrations

end FieldGuard
