import FieldGuard.Proofs.Layout

/-!
The policy language as lists of tokens. A relation between trees and tokens for each level of
precedence takes the level below it as a parameter, and expressions are where the levels meet.
-/

set_option autoImplicit false

namespace FieldGuard.Policy

def Token.Is (keyword : String) : Token → Prop
  | .word name => name.Is keyword
  | _ => False

section

variable (separator : Token → Prop) (connective : Connective) (Operand : Expr → List Token → Prop)

inductive Further : List Expr → List Token → Prop
  | none : Further [] []
  | one {expr : Expr} {others : List Expr} {between : Token} {tokens later : List Token} :
      separator between → Operand expr tokens → Further others later →
        Further (expr :: others) (between :: tokens ++ later)

/-- A run of operands is one group, and an operand on its own is none. -/
inductive Joined : Expr → List Token → Prop
  | single {expr : Expr} {tokens : List Token} : Operand expr tokens → Joined expr tokens
  | group {expr : Expr} {others : List Expr} {tokens later : List Token} :
      Operand expr tokens → others ≠ [] →
        Further (Token.Is connective.name) Operand others later →
          Joined (.group connective (expr :: others)) (tokens ++ later)

inductive Negated : Expr → List Token → Prop
  | operand {expr : Expr} {tokens : List Token} : Operand expr tokens → Negated expr tokens
  | not {word : Word} {expr : Expr} {tokens : List Token} :
      word.Is "not" → Negated expr tokens → Negated (.not expr) (.word word :: tokens)

end

def reserved : List String := ["and", "or", "not", "allow", "deny"]

inductive Primary (Whole : Expr → List Token → Prop) : Expr → List Token → Prop
  | constant {allowed : Bool} {word : Word} :
      word.Is (constantName allowed) → Primary Whole (.constant allowed) [.word word]
  | reference {word : Word} :
      (∀ keyword ∈ reserved, ¬ word.Is keyword) →
        Primary Whole (.reference word.name) [.word word]
  | parenthesised {expr : Expr} {tokens : List Token} :
      Whole expr tokens → Primary Whole expr (.opening :: tokens ++ [.closing])
  | call {connective : Connective} {word : Word} {expr : Expr} {others : List Expr}
      {tokens later : List Token} :
      connective = .chain ∨ connective = .race → word.Is connective.name →
        Whole expr tokens → Further (· = .comma) Whole others later →
          Primary Whole (.group connective (expr :: others))
            (.word word :: .opening :: tokens ++ later ++ [.closing])

inductive Expr.Spelled : Expr → List Token → Prop
  | intro {expr : Expr} {tokens : List Token} :
      Joined .or (Joined .and (Negated (Primary Spelled))) expr tokens → Spelled expr tokens

theorem spelled_of_primary {expr : Expr} {tokens : List Token}
    (primary : Primary Expr.Spelled expr tokens) : expr.Spelled tokens :=
  .intro (.single (.single (.operand primary)))

def Word.target (parentType : Word) : Option Word → Target
  | some field => .field parentType.name field.name
  | none => .type parentType.name

inductive Statement.Spelled : Statement → List Token → Prop
  | default {policy : DefaultPolicy} {first second : Word} :
      first.Is "default" → second.Is (constantName policy.allows) →
        Spelled (.default policy) [.word first, .word second]
  | fallback {word : Word} {expr : Expr} {tokens : List Token} :
      word.Is "fallback" → expr.Spelled tokens →
        Spelled (.rule .fallback expr) (.word word :: .colon :: tokens)
  | head {parentType : Word} {field : Option Word} {expr : Expr} {tokens : List Token} :
      ¬ parentType.Is "default" → expr.Spelled tokens →
        Spelled (.rule (parentType.target field) expr) (.head parentType field :: .colon :: tokens)

def Separate (tokens : List Token) : Prop :=
  ∀ token ∈ tokens.head?, ∀ word ∈ token.leading?, ¬ word.Is "and" ∧ ¬ word.Is "or"

/-- Statements in a row. An expression would go on with an infix operator, even where that is the
type of the next statement. -/
inductive Program : List Statement → List Token → Prop
  | nil : Program [] []
  | default {policy : DefaultPolicy} {statements : List Statement} {tokens later : List Token} :
      Statement.Spelled (.default policy) tokens → Program statements later →
        Program (.default policy :: statements) (tokens ++ later)
  | rule {target : Target} {expr : Expr} {statements : List Statement}
      {tokens later : List Token} :
      Statement.Spelled (.rule target expr) tokens → Separate later → Program statements later →
        Program (.rule target expr :: statements) (tokens ++ later)

/-- The statements are these defaults and these rules, each of the two in order. -/
inductive Interleaves : List Statement → List DefaultPolicy → List (Target × Expr) → Prop
  | nil : Interleaves [] [] []
  | default {policy : DefaultPolicy} {statements : List Statement} {defaults : List DefaultPolicy}
      {rules : List (Target × Expr)} :
      Interleaves statements defaults rules →
        Interleaves (.default policy :: statements) (policy :: defaults) rules
  | rule {target : Target} {expr : Expr} {statements : List Statement}
      {defaults : List DefaultPolicy} {rules : List (Target × Expr)} :
      Interleaves statements defaults rules →
        Interleaves (.rule target expr :: statements) defaults ((target, expr) :: rules)

theorem interleaves_iff {statements : List Statement} {defaults : List DefaultPolicy}
    {rules : List (Target × Expr)} :
    Interleaves statements defaults rules ↔ ⟨defaults, rules⟩ = Document.ofStatements statements := by
  constructor
  · intro interleaves
    induction interleaves with
    | nil => rfl
    | default _ ih =>
      cases ih
      rfl
    | rule _ ih =>
      cases ih
      rfl
  · rintro ⟨⟩
    induction statements with
    | nil => exact .nil
    | cons statement statements ih =>
      cases statement with
      | default policy => exact .default ih
      | rule target expr => exact .rule ih

theorem program_nil {tokens : List Token} : Program [] tokens ↔ tokens = [] := by
  constructor
  · rintro ⟨⟩
    rfl
  · rintro rfl
    exact .nil

theorem program_cons {statement : Statement} {statements : List Statement} {tokens : List Token} :
    Program (statement :: statements) tokens ↔ ∃ spelling later, tokens = spelling ++ later ∧
      statement.Spelled spelling ∧ (statement.rule?.isSome → Separate later) ∧
      Program statements later := by
  constructor
  · rintro ⟨⟩
    next spelled program => exact ⟨_, _, rfl, spelled, nofun, program⟩
    next spelled separate program => exact ⟨_, _, rfl, spelled, fun _ => separate, program⟩
  · rintro ⟨spelling, later, rfl, spelled, separate, program⟩
    cases statement with
    | default policy => exact .default spelled program
    | rule target expr => exact .rule spelled (separate rfl) program

theorem separate_append {tokens later : List Token} :
    Separate (tokens ++ later) ↔ Separate tokens ∧ (tokens = [] → Separate later) := by
  cases tokens <;> simp [Separate]

section

variable {Language Other : Expr → List Token → Prop} {expr : Expr} {tokens : List Token}

theorem Further.mono {separator : Token → Prop} {exprs : List Expr}
    (further : Further separator Language exprs tokens)
    (weaken : ∀ {expr spelling}, spelling.length < tokens.length → Language expr spelling →
      Other expr spelling) : Further separator Other exprs tokens := by
  induction further with
  | none => exact .none
  | one separates spelled _ ih =>
      simp only [List.length_append, List.length_cons] at weaken
      refine .one separates (weaken (by omega) spelled) (ih ?_)
      intro expr spelling short
      exact weaken (by omega)

theorem Joined.mono {connective : Connective} (joined : Joined connective Language expr tokens)
    (weaken : ∀ {expr spelling}, spelling.length ≤ tokens.length → Language expr spelling →
      Other expr spelling) : Joined connective Other expr tokens := by
  cases joined with
  | single spelled => exact .single (weaken (Nat.le_refl _) spelled)
  | group spelled several further =>
      simp only [List.length_append] at weaken
      refine .group (weaken (by omega) spelled) several (further.mono ?_)
      intro expr spelling short
      exact weaken (by omega)

theorem Negated.mono (negated : Negated Language expr tokens)
    (weaken : ∀ {expr spelling}, spelling.length ≤ tokens.length → Language expr spelling →
      Other expr spelling) : Negated Other expr tokens := by
  induction negated with
  | operand spelled => exact .operand (weaken (Nat.le_refl _) spelled)
  | not is _ ih =>
      refine .not is (ih ?_)
      intro expr spelling short
      exact weaken (Nat.le_succ_of_le short)

theorem Primary.mono (primary : Primary Language expr tokens)
    (weaken : ∀ {expr spelling}, spelling.length < tokens.length → Language expr spelling →
      Other expr spelling) : Primary Other expr tokens := by
  cases primary with
  | constant is => exact .constant is
  | reference free => exact .reference free
  | parenthesised spelled =>
      simp only [List.length_append, List.length_cons] at weaken
      exact .parenthesised (weaken (by omega) spelled)
  | call calls is spelled further =>
      simp only [List.length_append, List.length_cons] at weaken
      refine .call calls is (weaken (by omega) spelled) (further.mono ?_)
      intro expr spelling short
      exact weaken (by omega)

theorem Expr.Spelled.induct
    (step : ∀ {expr tokens}, Joined .or (Joined .and (Negated (Primary Other))) expr tokens →
      Other expr tokens) (spelled : expr.Spelled tokens) : Other expr tokens := by
  induction known : tokens.length using Nat.strongRecOn generalizing expr tokens with
  | ind length ih =>
      obtain ⟨disjunction⟩ := spelled
      -- only a primary holds wholes, and those are shorter
      refine step (disjunction.mono fun short conjunction => ?_)
      refine conjunction.mono fun shorter negated => ?_
      refine negated.mono fun also primary => primary.mono fun within whole => ?_
      exact ih _ (by omega) whole rfl

end

def keywords : List String :=
  ["and", "or", "not", "allow", "deny", "chain", "race", "default", "fallback"]

theorem keyword_spelling : ∀ first ∈ keywords, ∀ second ∈ keywords,
    isKeyword second first.toList ∨ isKeyword second (first.toList.map Char.toUpper) →
      first = second := by
  decide

theorem not_keyword {first second : String} {name : List Char} (is : isKeyword first name)
    (member : first ∈ keywords) (also : second ∈ keywords) (different : first ≠ second) :
    ¬ isKeyword second name := by
  intro too
  apply different
  apply keyword_spelling first member second also
  simp only [isKeyword, Bool.or_eq_true, beq_iff_eq] at is
  rcases is with rfl | rfl
  · exact .inl too
  · exact .inr too

theorem word_apart {word : Word} {keyword : String} {others : List String}
    (is : word.Is keyword) (member : keyword ∈ keywords)
    (apart : ∀ other ∈ others, other ∈ keywords ∧ keyword ≠ other) :
    ∀ other ∈ others, ¬ word.Is other :=
  fun other also => not_keyword is member (apart other also).1 (apart other also).2

theorem separate_word {word : Word} {keyword : String} {later : List Token} (is : word.Is keyword)
    (member : keyword ∈ keywords) (apart : keyword ≠ "and" ∧ keyword ≠ "or") :
    Separate (.word word :: later) := by
  rintro _ ⟨⟩ _ ⟨⟩
  exact ⟨not_keyword is member (by decide) apart.1, not_keyword is member (by decide) apart.2⟩

end FieldGuard.Policy
