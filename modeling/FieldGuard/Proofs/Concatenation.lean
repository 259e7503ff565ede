import FieldGuard.Proofs.Programs
import Mathlib.Tactic.ByContra

set_option autoImplicit false

namespace FieldGuard.Policy

/-! ### Layouts in a row -/

theorem Ends.line {rest : List Char} (ends : Ends rest) (later : List Char) :
    Ends (rest ++ '\n' :: later) := by
  rw [← rest.append_nil] at ends
  exact ends.congr fun _ => ends_cons (by decide)

theorem Layout.after {tokens : List Token} {gap text : List Char} (layout : Layout tokens text)
    (blank : Gap gap) : Layout tokens (gap ++ text) := by
  cases tokens with
  | nil =>
      rw [layout_nil, blank.skipped]
      exact layout_nil.mp layout
  | cons token tokens =>
      rw [layout_cons, blank.skipped]
      exact layout_cons.mp layout

theorem Layout.line {tokens later : List Token} {first second : List Char}
    (layout : Layout tokens first) (next : Layout later second) :
    Layout (tokens ++ later) (first ++ '\n' :: second) := by
  induction layout with
  | done last => simpa using next.after last.line
  | token blank ends _ ih =>
      simpa using Layout.token blank (fun word => (ends word).line second) ih

/-! ### A text has one layout -/

theorem Word.initial_ne (word : Word) (c : Char) (other : ¬ isInitial c) : word.initial ≠ c := by
  rintro rfl
  exact other word.initial_allowed

theorem Word.text_append_inj {first second : Word} {rest left : List Char}
    (same : first.text ++ rest = second.text ++ left) (ends : Ends rest) (also : Ends left) :
    first = second ∧ rest = left := by
  have found := first.identifierOf_text ends
  rw [same, second.identifierOf_text also] at found
  simp only [Option.some.injEq, Prod.mk.injEq, Word.text, List.cons.injEq] at found
  obtain ⟨⟨initial, others⟩, rfl⟩ := found
  cases first
  cases second
  simp_all

def fieldText : Option Word → List Char
  | some field => field.text
  | none => ['*']

theorem head_text (parentType : Word) (field : Option Word) :
    (Token.head parentType field).text = parentType.text ++ '.' :: fieldText field := by
  cases field <;> rfl

theorem fieldText_append_inj {first second : Option Word} {rest left : List Char}
    (same : fieldText first ++ rest = fieldText second ++ left)
    (ends : first.isSome → Ends rest) (also : second.isSome → Ends left) :
    first = second ∧ rest = left := by
  cases first with
  | none =>
      cases second with
      | none => simpa [fieldText] using same
      | some second =>
          have := second.initial_ne '*' (by decide)
          simp [fieldText, Word.text, this.symm] at same
  | some first =>
      cases second with
      | none =>
          have := first.initial_ne '*' (by decide)
          simp [fieldText, Word.text, this] at same
      | some second => simpa using Word.text_append_inj same (ends rfl) (also rfl)

theorem endsInWord_head {parentType : Word} {field : Option Word} :
    (Token.head parentType field).EndsInWord ↔ field.isSome := by
  cases field <;> simp [Token.EndsInWord]

theorem Layout.undotted {tokens : List Token} {text : List Char} (layout : Layout tokens text) :
    ∀ rest, text ≠ '.' :: rest := by
  rintro rest rfl
  have mark : afterGap ('.' :: rest) = '.' :: rest := afterGap_mark (by decide) (by decide)
  cases tokens with
  | nil => simp [layout_nil, mark] at layout
  | cons token tokens =>
      obtain ⟨later, found, _⟩ := layout_cons.mp layout
      rw [mark] at found
      cases token with
      | word name =>
          have := name.initial_ne '.' (by decide)
          simp [Token.text, Word.text, this.symm] at found
      | head parentType field =>
          have := parentType.initial_ne '.' (by decide)
          simp [head_text, Word.text, this.symm] at found
      | _ => simp [Token.text] at found

theorem Token.text_append_inj {token other : Token} {rest left : List Char}
    (same : token.text ++ rest = other.text ++ left) (ends : token.EndsInWord → Ends rest)
    (also : other.EndsInWord → Ends left) (undotted : ∀ later, rest ≠ '.' :: later)
    (plain : ∀ later, left ≠ '.' :: later) : token = other ∧ rest = left := by
  have stop (later : List Char) : Ends ('.' :: later) := ends_cons (by decide)
  -- a word is a token of its own only where no dot follows it
  cases token <;> cases other
  case word.word first second =>
    obtain ⟨rfl, rfl⟩ := Word.text_append_inj same (ends trivial) (also trivial)
    exact ⟨rfl, rfl⟩
  case word.head first second field =>
    rw [head_text, List.append_assoc] at same
    exact absurd (Word.text_append_inj same (ends trivial) (stop _)).2 (undotted _)
  case head.word first field second =>
    rw [head_text, List.append_assoc] at same
    exact absurd (Word.text_append_inj same (stop _) (also trivial)).2.symm (plain _)
  case head.head first field second other =>
    simp only [head_text, List.append_assoc, List.cons_append] at same
    obtain ⟨rfl, dotted⟩ := Word.text_append_inj same (stop _) (stop _)
    obtain ⟨rfl, rfl⟩ := fieldText_append_inj (List.cons.inj dotted).2
      (fun named => ends (endsInWord_head.mpr named)) (fun named => also (endsInWord_head.mpr named))
    exact ⟨rfl, rfl⟩
  -- a mark begins no word, and no two marks are the same character
  all_goals
    obtain ⟨_, found⟩ := Token.identifierOf_text ends
    obtain ⟨_, others⟩ := Token.identifierOf_text also
    rw [same, others] at found
    simp_all [Token.leading?, Token.text]

theorem Layout.unique {tokens others : List Token} {text : List Char} (layout : Layout tokens text)
    (also : Layout others text) : tokens = others := by
  induction tokens generalizing text others with
  | nil =>
      have last := layout_nil.mp layout
      cases others with
      | nil => rfl
      | cons other others =>
          obtain ⟨rest, found, _⟩ := layout_cons.mp also
          simp [last, other.text_ne_nil] at found
  | cons token tokens ih =>
      obtain ⟨rest, found, ends, layout⟩ := layout_cons.mp layout
      cases others with
      | nil => simp [layout_nil.mp also, token.text_ne_nil] at found
      | cons other others =>
          obtain ⟨left, again, closes, also⟩ := layout_cons.mp also
          obtain ⟨rfl, rfl⟩ := Token.text_append_inj (found.symm.trans again) ends closes
            layout.undotted also.undotted
          rw [ih layout also]

/-! ### Where a program comes apart -/

def Token.Plain : Token → Prop
  | .head _ _ => False
  | _ => True

section

variable {Language : Expr → List Token → Prop} {expr : Expr} {tokens : List Token}
  (known : ∀ {expr tokens}, Language expr tokens → ∀ token ∈ tokens, token.Plain)

include known

theorem Further.plain {separator : Token → Prop} {exprs : List Expr}
    (marks : ∀ token, separator token → token.Plain)
    (further : Further separator Language exprs tokens) : ∀ token ∈ tokens, token.Plain := by
  induction further with
  | none => exact nofun
  | one separates spelled _ ih =>
      rw [List.cons_append, List.forall_mem_cons, List.forall_mem_append]
      exact ⟨marks _ separates, known spelled, ih⟩

theorem Joined.plain {connective : Connective} (joined : Joined connective Language expr tokens) :
    ∀ token ∈ tokens, token.Plain := by
  cases joined with
  | single spelled => exact known spelled
  | group spelled _ further =>
      rw [List.forall_mem_append]
      refine ⟨known spelled, further.plain known ?_⟩
      intro token is
      cases token with
      | head _ _ => exact is.elim
      | _ => exact trivial

theorem Negated.plain (negated : Negated Language expr tokens) :
    ∀ token ∈ tokens, token.Plain := by
  induction negated with
  | operand spelled => exact known spelled
  | not _ _ ih => exact List.forall_mem_cons.mpr ⟨trivial, ih⟩

theorem Primary.plain (primary : Primary Language expr tokens) :
    ∀ token ∈ tokens, token.Plain := by
  cases primary with
  | constant _ | reference _ => simp [Token.Plain]
  | parenthesised spelled =>
      simp only [List.cons_append, List.forall_mem_cons, List.forall_mem_append]
      exact ⟨trivial, known spelled, trivial, nofun⟩
  | call _ _ spelled further =>
      have others := further.plain known fun token same => by simp [same, Token.Plain]
      simp only [List.cons_append, List.forall_mem_cons, List.forall_mem_append]
      exact ⟨trivial, trivial, ⟨known spelled, others⟩, trivial, nofun⟩

end

theorem Expr.Spelled.plain {expr : Expr} {tokens : List Token} (spelled : expr.Spelled tokens) :
    ∀ token ∈ tokens, token.Plain := by
  apply spelled.induct
  intro expr tokens disjunction
  refine disjunction.plain fun conjunction => ?_
  refine conjunction.plain fun negated => ?_
  exact negated.plain fun primary => primary.plain id

theorem statement_tail_plain {statement : Statement} {token : Token} {tokens : List Token}
    (spelled : statement.Spelled (token :: tokens)) : ∀ later ∈ tokens, later.Plain := by
  cases spelled with
  | default _ _ => simp [Token.Plain]
  | fallback _ spelled | head _ spelled =>
      exact List.forall_mem_cons.mpr ⟨trivial, spelled.plain⟩

theorem program_empty {statements : List Statement} :
    Program statements [] ↔ statements = [] := by
  constructor
  · intro program
    cases statements with
    | nil => rfl
    | cons statement statements =>
        obtain ⟨spelling, later, empty, spelled, _⟩ := program_cons.mp program
        obtain ⟨token, others, rfl, _⟩ := statement_begins spelled
        simp at empty
  · rintro rfl
    exact .nil

def LastIsRule (statements : List Statement) : Prop :=
  ∃ last ∈ statements.getLast?, last.rule?.isSome

theorem lastIsRule_cons {statement : Statement} {statements : List Statement} :
    LastIsRule (statement :: statements) ↔
      LastIsRule statements ∨ statements = [] ∧ statement.rule?.isSome := by
  cases statements <;> simp [LastIsRule, List.getLast?_cons]

theorem Program.append {first second : List Statement} {tokens later : List Token}
    (program : Program first tokens) (next : Program second later)
    (free : LastIsRule first → Separate later) : Program (first ++ second) (tokens ++ later) := by
  induction first generalizing tokens with
  | nil =>
      obtain rfl := program_nil.mp program
      exact next
  | cons statement first ih =>
      obtain ⟨spelling, others, rfl, spelled, separate, program⟩ := program_cons.mp program
      rw [lastIsRule_cons] at free
      rw [List.cons_append, List.append_assoc, program_cons]
      refine ⟨spelling, others ++ later, rfl, spelled, ?_, ih program fun rule => free (.inl rule)⟩
      intro rule
      refine separate_append.mpr ⟨separate rule, fun empty => ?_⟩
      -- nothing is left of the first program, so this statement is its last one
      subst empty
      exact free (.inr ⟨program_empty.mp program, rule⟩)

theorem Statement.Spelled.before_head {statement : Statement} {parentType : Word}
    {field : Option Word} {spelling later before after : List Token}
    (spelled : statement.Spelled spelling)
    (same : before ++ .head parentType field :: after = spelling ++ later) (start : before ≠ []) :
    ∃ others, before = spelling ++ others ∧ later = others ++ .head parentType field :: after := by
  rcases List.append_eq_append_iff.mp same with ⟨ahead, split, rest⟩ | found
  · cases ahead with
    | nil => exact ⟨[], by simpa using split.symm, by simpa using rest.symm⟩
    | cons token ahead =>
        -- inside of the statement a head would be a token that no expression has
        obtain ⟨first, before, rfl⟩ := List.exists_cons_of_ne_nil start
        subst split
        have plain := statement_tail_plain spelled token (by simp)
        rw [← (List.cons.inj rest).1] at plain
        exact plain.elim
  · exact found

theorem Program.split {parentType : Word} {field : Option Word} {statements : List Statement}
    {before after : List Token}
    (program : Program statements (before ++ .head parentType field :: after)) :
    ∃ first second, statements = first ++ second ∧ Program first before ∧
      Program second (.head parentType field :: after) ∧
      (LastIsRule first → Separate (.head parentType field :: after)) := by
  induction statements generalizing before with
  | nil => simp [program_nil] at program
  | cons statement statements ih =>
      by_cases start : before = []
      · subst start
        exact ⟨[], statement :: statements, rfl, .nil, program, by simp [LastIsRule]⟩
      obtain ⟨spelling, later, same, spelled, separate, program⟩ := program_cons.mp program
      obtain ⟨others, rfl, rfl⟩ := spelled.before_head same start
      obtain ⟨first, second, rfl, leading, trailing, free⟩ := ih program
      refine ⟨statement :: first, second, rfl, ?_, trailing, ?_⟩
      · refine program_cons.mpr ⟨spelling, others, rfl, spelled, fun rule => ?_, leading⟩
        exact (separate_append.mp (separate rule)).1
      · intro last
        rcases lastIsRule_cons.mp last with last | ⟨rfl, rule⟩
        · exact free last
        · obtain rfl := program_nil.mp leading
          exact separate rule

theorem Program.head_of_infix {statements : List Statement} {tokens : List Token}
    (program : Program statements tokens) (goes : ¬ Separate tokens) :
    ∃ parentType field after, tokens = .head parentType field :: after := by
  cases statements with
  | nil =>
      obtain rfl := program_nil.mp program
      exact absurd (by simp [Separate]) goes
  | cons statement statements =>
      obtain ⟨spelling, later, rfl, spelled, _⟩ := program_cons.mp program
      cases spelled with
      | default is _ => exact absurd (separate_word is (by decide) (by decide)) goes
      | fallback is _ => exact absurd (separate_word is (by decide) (by decide)) goes
      | head _ _ => exact ⟨_, _, _, rfl⟩

/-! ### Two texts as one -/

/-- The text ends in an expression. -/
def EndsInRule (text : String) : Prop :=
  ∃ statements, Parser.statements text.toList = .ok statements [] ∧ LastIsRule statements

/-- The word that the text begins with, which is a type in a text that is parsed, is spelled as an
infix operator. -/
def BeginsInfix (text : String) : Prop := ∃ keyword ∈ ["or", "and"], Leads keyword text.toList

theorem beginsInfix_iff {text : String} {tokens : List Token} (layout : Layout tokens text.toList) :
    BeginsInfix text ↔ ¬ Separate tokens := by
  obtain ⟨rest, reads, last⟩ := layout_iff_reads.mp layout
  rw [← stops_iff_separate reads last]
  simp only [BeginsInfix, Stops, not_forall, not_not, exists_prop]

theorem endsInRule_iff {text : String} {statements : List Statement}
    (read : Parser.statements text.toList = .ok statements []) :
    EndsInRule text ↔ LastIsRule statements := by
  constructor
  · rintro ⟨others, again, rule⟩
    obtain ⟨rfl, _⟩ := Reply.ok.inj (read.symm.trans again)
    exact rule
  · intro rule
    exact ⟨statements, read, rule⟩

theorem parse_concatenation {first second : String} {one two : Document}
    (parsed : parse first = .ok one) (also : parse second = .ok two) :
    (¬ (EndsInRule first ∧ BeginsInfix second) →
      parse (first ++ "\n" ++ second) =
        .ok ⟨one.defaults ++ two.defaults, one.rules ++ two.rules⟩) ∧
    (EndsInRule first ∧ BeginsInfix second →
      ∃ complaint, parse (first ++ "\n" ++ second) = .error complaint) := by
  obtain ⟨statements, read, rfl⟩ := parse_accepts.mp parsed
  obtain ⟨others, again, rfl⟩ := parse_accepts.mp also
  obtain ⟨tokens, program, layout⟩ := statements_eq_ok.mp read
  obtain ⟨later, next, follows⟩ := statements_eq_ok.mp again
  rw [endsInRule_iff read, beginsInfix_iff follows]
  have whole : Layout (tokens ++ later) (first ++ "\n" ++ second).toList := by
    simpa using layout.line follows
  constructor
  case left =>
    intro apart
    have free : LastIsRule statements → Separate later := by
      intro rule
      by_contra goes
      exact apart ⟨rule, goes⟩
    rw [parse_program (program.append next free) whole]
    simp [Document.ofStatements]
  case right =>
    rintro ⟨rule, goes⟩
    cases result : parse (first ++ "\n" ++ second) with
    | error complaint => exact ⟨complaint, rfl⟩
    | ok document =>
        exfalso
        obtain ⟨found, accepted, _⟩ := parse_accepts.mp result
        obtain ⟨spelling, accepted, layouts⟩ := statements_eq_ok.mp accepted
        obtain rfl := layouts.unique whole
        obtain ⟨parentType, field, after, rfl⟩ := next.head_of_infix goes
        obtain ⟨front, back, rfl, leading, _, free⟩ := accepted.split
        -- what comes before the type are the statements of the first text, by its own tokens
        have front_read := statements_eq_ok.mpr ⟨tokens, leading, layout⟩
        obtain ⟨rfl, _⟩ := Reply.ok.inj (read.symm.trans front_read)
        exact goes (free rule)

theorem parse_concatenation_last_rule :
    (∃ expr, parse ("fallback: a # all" ++ "\n" ++ "default deny or.x: b") =
      .ok ⟨[.deny], [(.fallback, expr), (.field "or" "x", .reference "b")]⟩) ∧
    ∃ complaint, parse ("fallback: a # all" ++ "\n" ++ "or.x: b") = .error complaint := by
  have parsed : parse "fallback: a # all" = .ok ⟨[], [(.fallback, .reference "a")]⟩ := by
    with_unfolding_all rfl
  have mixed : parse "default deny or.x: b" =
      .ok ⟨[.deny], [(.field "or" "x", .reference "b")]⟩ := by
    with_unfolding_all rfl
  have lone : parse "or.x: b" = .ok ⟨[], [(.field "or" "x", .reference "b")]⟩ := by
    with_unfolding_all rfl
  constructor
  · refine ⟨_, (parse_concatenation parsed mixed).1 ?_⟩
    rintro ⟨_, keyword, member, name, rest, found, is⟩
    have word : identifierOf (afterGap "default deny or.x: b".toList) =
        some ("default".toList, " deny or.x: b".toList) := by with_unfolding_all rfl
    obtain ⟨rfl, _⟩ := Prod.mk.inj (Option.some.inj (word.symm.trans found))
    have other : ∀ keyword ∈ ["or", "and"], ¬ isKeyword keyword "default".toList := by decide
    exact other keyword member is
  · apply (parse_concatenation parsed lone).2
    constructor
    · exact ⟨[.rule .fallback (.reference "a")], by with_unfolding_all rfl, _, rfl, rfl⟩
    · exact ⟨"or", by simp, "or".toList, ".x: b".toList, by with_unfolding_all rfl, by decide⟩

end FieldGuard.Policy
