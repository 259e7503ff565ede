import FieldGuard.Proofs.Failures
import FieldGuard.Proofs.Programs
import FieldGuard.Proofs.Writing

set_option autoImplicit false

namespace FieldGuard.Policy

/-- Something can be written after what is gone of the text that makes tokens of the language. -/
def Viable (Language : List Token → Prop) (text rest : List Char) : Prop :=
  ∃ gone more tokens, text = gone ++ rest ∧ Language tokens ∧ Writes (gone ++ more) tokens ∧
    (Ends text → Separates (gone ++ more))

namespace Viable

variable {Language Other : List Token → Prop} {text mid rest : List Char} {tokens : List Token}

theorem after (viable : Viable Language mid rest) (reads : Reads text tokens mid)
    (grows : ∀ later, Language later → Other (tokens ++ later)) : Viable Other text rest := by
  obtain ⟨gone, more, later, rfl, spelled, writes, separates⟩ := viable
  obtain ⟨before, rfl, written⟩ := reads.written
  refine ⟨before ++ gone, more, tokens ++ later, by simp, grows later spelled, ?_, ?_⟩
  · intro other ends
    -- a word that ended before the rest ends before what is written instead
    have first := written (gone ++ more ++ other) fun also => separates also other ends
    simpa using first.append (writes other ends)
  · intro also other ends
    simp only [List.append_assoc]
    apply also.congr
    intro closes
    simpa using separates closes other ends

theorem mono (viable : Viable Language text rest)
    (weaken : ∀ tokens, Language tokens → Other tokens) : Viable Other text rest := by
  obtain ⟨gone, more, tokens, split, spelled, written⟩ := viable
  exact ⟨gone, more, tokens, split, weaken tokens spelled, written⟩

theorem extend {characters : List Char} {later : List Token} (viable : Viable Language text rest)
    (writes : Writes characters later) (separates : Separates characters)
    (grows : ∀ tokens, Language tokens → Other (tokens ++ later)) : Viable Other text rest := by
  obtain ⟨gone, more, tokens, split, spelled, written, apart⟩ := viable
  refine ⟨gone, more ++ characters, tokens ++ later, split, grows tokens spelled, ?_, ?_⟩
  · simpa using written.append writes separates
  · intro ends other also
    have := apart ends _ (separates other also)
    simpa using this

theorem line {characters : List Char} (skips : Skips text rest) (writes : Writes characters tokens)
    (some : tokens ≠ []) (spelled : Language tokens) : Viable Language text rest := by
  -- a line of their own, as the gap may be a comment that would swallow them
  obtain ⟨gap, blank, split⟩ := skips.line
  refine ⟨gap, '\n' :: characters, tokens, split, spelled, ?_, ?_⟩
  · simpa using writes.gap some blank
  · intro ends other _
    rw [split] at ends
    simpa using ends.congr fun _ => ends_cons (by decide)

theorem missing {characters : List Char} {later : List Token} (reads : Reads text tokens mid)
    (writes : Writes characters later) (some : later ≠ []) (spelled : Language (tokens ++ later)) :
    Viable Language text (afterGap mid) := by
  have next : Viable (· = later) mid (afterGap mid) := .line (afterGap_skips mid) writes some rfl
  apply next.after reads
  rintro _ rfl
  exact spelled

end Viable

/-! ### Expressions -/

def Spells (Language : Expr → List Token → Prop) (tokens : List Token) : Prop :=
  ∃ expr, Language expr tokens

def FailsViably (Language : Expr → List Token → Prop) (parser : Parser Expr) : Prop :=
  ∀ text rest, parser.Fails text rest → Viable (Spells Language) text rest

def Arguments (Language : Expr → List Token → Prop) (tokens : List Token) : Prop :=
  ∃ first others spelling later, Language first spelling ∧
    Further (· = .comma) Language others later ∧ tokens = spelling ++ later ++ [.closing]

theorem closing_writes : Writes [')'] [.closing] := Token.closing.writes

theorem closing_separates : Separates [')'] := separates_cons (by decide)

theorem keyword_item_aborts {keyword : String} {operand : Parser Expr} {text rest : List Char}
    (aborts : Parser.Aborts (do
      Parser.gap
      Parser.keyword keyword
      Parser.commit operand) text rest) :
    ∃ between mid, Token.Is keyword between ∧ Reads text [between] mid ∧
      operand.Fails mid rest := by
  rw [Parser.gap_aborts, Parser.bind_aborts] at aborts
  rcases aborts with aborts | ⟨_, mid, read, aborts⟩
  · exact absurd aborts Parser.keyword_aborts
  · obtain ⟨word, is, reads⟩ := reads_keyword.mp read
    exact ⟨.word word, mid, is, reads, Parser.commit_aborts.mp aborts⟩

theorem comma_item_aborts {operand : Parser Expr} {text rest : List Char}
    (aborts : Parser.Aborts (do
      Parser.gap
      Parser.char ','
      Parser.commit operand) text rest) :
    ∃ between mid, between = .comma ∧ Reads text [between] mid ∧ operand.Fails mid rest := by
  rw [Parser.gap_aborts, Parser.bind_aborts] at aborts
  rcases aborts with aborts | ⟨_, mid, read, aborts⟩
  · exact absurd aborts Parser.char_aborts
  · have found := reads_comma.mpr (Parser.char_eq_ok.mp read)
    exact ⟨.comma, mid, rfl, found, Parser.commit_aborts.mp aborts⟩

section

variable {bound : Nat} {barred : List String} {Language : Expr → List Token → Prop}

theorem Delimits.many_viable {separator : Token → Prop} {operand item : Parser Expr}
    (delimits : Delimits separator operand item) (parses : Parses bound barred Language operand)
    (viable : FailsViably Language operand)
    (aborts : ∀ {text rest}, item.Aborts text rest → ∃ between mid, separator between ∧
      Reads text [between] mid ∧ operand.Fails mid rest)
    {text rest : List Char} (fails : (Parser.many item).Fails text rest) :
    Viable (fun tokens => ∃ exprs, exprs ≠ [] ∧ Further separator Language exprs tokens)
      text rest := by
  obtain ⟨last, reaches, aborted⟩ := Parser.many_fails fails
  clear fails
  -- the operands that were read come before the one in which the parser failed
  induction reaches with
  | here =>
      obtain ⟨between, mid, separates, reads, fails⟩ := aborts aborted
      apply (viable mid rest fails).after reads
      rintro tokens ⟨expr, spelled⟩
      exact ⟨[expr], by simp, by simpa using Further.one separates spelled .none⟩
  | more parsed _ ih =>
      obtain ⟨between, mid, separates, first, parsed⟩ := delimits.reads.mp parsed
      obtain ⟨tokens, spelled, second, _⟩ := parses.sound parsed
      apply (ih aborted).after (first.append second)
      rintro later ⟨exprs, _, further⟩
      exact ⟨_ :: exprs, by simp, .one separates spelled further⟩

theorem arguments_viable {expression : Parser Expr} (parses : Parses bound barred Language expression)
    (viable : FailsViably Language expression) {text rest : List Char}
    (fails : (Parser.arguments expression).Fails text rest) :
    Viable (Arguments Language) text rest := by
  have delimits := delimits_comma expression
  -- it fails in the first argument, in another one, or where the bracket is not closed
  rcases Parser.bind_fails.mp fails with fails | ⟨first, mid, parsed, fails⟩
  · apply (viable text rest fails).extend closing_writes closing_separates
    rintro tokens ⟨expr, spelled⟩
    exact ⟨expr, [], tokens, [], spelled, .none, by simp⟩
  obtain ⟨tokens, spelled, reads, stops⟩ := parses.sound parsed
  rcases Parser.bind_fails.mp fails with fails | ⟨others, last, repeated, fails⟩
  · have further := delimits.many_viable parses viable comma_item_aborts fails
    have closed : Viable (fun later => Arguments Language (tokens ++ later)) mid rest := by
      apply further.extend closing_writes closing_separates
      rintro later ⟨others, _, further⟩
      exact ⟨first, others, tokens, later, spelled, further, by simp⟩
    exact closed.after reads fun _ held => held
  · obtain ⟨later, further, left, _⟩ :=
      delimits.sound parses ((delimits.advances parses).many_eq_ok.mp repeated) stops
    rw [Parser.gap_fails, Parser.map_fails, Parser.commit_fails] at fails
    obtain rfl := Parser.char_fails fails
    exact .missing (reads.append left) closing_writes (by simp)
      ⟨first, others, tokens, later, spelled, further, rfl⟩

theorem call_aborts {expression : Parser Expr} {connective : Connective} {name text rest : List Char}
    (aborts : (Parser.call expression connective name).Aborts text rest) :
    ∃ start, Reads text [.opening] start ∧ (Parser.arguments expression).Fails start rest := by
  simp only [Parser.Aborts, Parser.call] at aborts
  split at aborts
  next start found =>
    exact ⟨start, reads_opening.mpr found, Parser.map_fails.mp (Parser.commit_aborts.mp aborts)⟩
  next => simp at aborts

theorem named_aborts {expression : Parser Expr} {text rest : List Char}
    (aborts : (Parser.named expression).Aborts (afterGap text) rest) :
    ∃ (connective : Connective) (word : Word) (mid start : List Char),
      (connective = .chain ∨ connective = .race) ∧ word.Is connective.name ∧
      Reads text [.word word] mid ∧ Reads mid [.opening] start ∧
      (Parser.arguments expression).Fails start rest := by
  rcases Parser.bind_aborts.mp aborts with aborts | ⟨name, mid, found, aborts⟩
  · exact absurd aborts Parser.identifierSuch_aborts
  obtain ⟨word, rfl, _, ends, begins⟩ := Parser.identifierSuch_eq_ok.mp found
  have reads := reads_word.mpr ⟨begins, ends⟩
  split at aborts
  next => exact absurd aborts.fails Parser.pure_fails
  split at aborts
  next => exact absurd aborts.fails Parser.pure_fails
  split at aborts
  next is =>
    obtain ⟨start, opened, fails⟩ := call_aborts aborts
    exact ⟨.chain, word, mid, start, .inl rfl, is, reads, opened, fails⟩
  split at aborts
  next is =>
    obtain ⟨start, opened, fails⟩ := call_aborts aborts
    exact ⟨.race, word, mid, start, .inr rfl, is, reads, opened, fails⟩
  next => exact absurd aborts.fails Parser.pure_fails

theorem parenthesised_viable {expression : Parser Expr}
    (parses : Parses bound barred Language expression) (viable : FailsViably Language expression)
    {text rest : List Char}
    (aborts : (Parser.parenthesised expression).Aborts (afterGap text) rest) :
    Viable (Spells (Primary Language)) text rest := by
  rcases Parser.bind_aborts.mp aborts with aborts | ⟨_, start, found, aborts⟩
  · exact absurd aborts Parser.char_aborts
  have opened := reads_opening.mpr (Parser.char_eq_ok.mp found)
  rcases Parser.bind_aborts.mp aborts with aborts | ⟨expr, last, parsed, aborts⟩
  · have closed : Viable (fun later => Spells (Primary Language) (.opening :: later)) start rest := by
      apply (viable start rest aborts.fails).extend closing_writes closing_separates
      rintro tokens ⟨expr, spelled⟩
      exact ⟨expr, .parenthesised spelled⟩
    exact closed.after opened fun _ held => held
  obtain ⟨tokens, spelled, reads, _⟩ := parses.sound parsed
  rw [Parser.gap_aborts, Parser.map_aborts, Parser.commit_aborts] at aborts
  obtain rfl := Parser.char_fails aborts
  exact .missing (opened.append reads) closing_writes (by simp) ⟨expr, .parenthesised spelled⟩

theorem primary_viable {expression : Parser Expr}
    (parses : Parses bound barred Language expression) (viable : FailsViably Language expression) :
    FailsViably (Primary Language) (Parser.primary expression) := by
  intro text rest fails
  rw [Parser.primary, Parser.gap_fails, Parser.expecting_fails] at fails
  rcases Parser.orElse_fails fails with rfl | aborts | ⟨_, aborts⟩
  -- what was read inside of the choice is given back, and a constant can stand where it began
  · obtain ⟨word, is, _⟩ := exists_keyword (by decide : "allow" ∈ keywords)
    exact .line (afterGap_skips text) (Token.word word).writes (by simp)
      ⟨.constant true, .constant is⟩
  · exact parenthesised_viable parses viable aborts
  · obtain ⟨connective, word, mid, start, calls, is, named, opened, fails⟩ := named_aborts aborts
    apply (arguments_viable parses viable fails).after (named.append opened)
    rintro _ ⟨first, others, tokens, later, spelled, further, rfl⟩
    exact ⟨_, by simpa using Primary.call calls is spelled further⟩

/-! #### Operators -/

theorem negations_viable {text mid rest : List Char} {negations : List Unit}
    (repeats : Parser.Repeats Parser.negation text negations mid)
    (viable : Viable (Spells (Negated Language)) mid rest) :
    Viable (Spells (Negated Language)) text rest := by
  induction repeats with
  | stop _ => exact viable
  | more found _ ih =>
      obtain ⟨word, is, reads⟩ := negation_eq_ok.mp found
      apply (ih viable).after reads
      rintro later ⟨expr, negated⟩
      exact ⟨.not expr, .not is negated⟩

theorem unary_viable {expression : Parser Expr}
    (viable : FailsViably Language (Parser.primary expression)) :
    FailsViably (Negated Language) (Parser.unary expression) := by
  intro text rest fails
  rcases Parser.bind_fails.mp fails with fails | ⟨negations, mid, repeated, fails⟩
  · obtain ⟨last, _, aborts⟩ := Parser.many_fails fails
    exact absurd (Parser.gap_aborts.mp aborts) Parser.keyword_aborts
  -- a primary is missing whether or not there is a way back from it
  have missing : (Parser.primary expression).Fails mid rest := by
    split at fails
    · exact Parser.map_fails.mp fails
    · exact Parser.commit_fails.mp (Parser.map_fails.mp fails)
  apply negations_viable (negation_advances.many_eq_ok.mp repeated)
  apply (viable mid rest missing).mono
  rintro tokens ⟨expr, spelled⟩
  exact ⟨expr, .operand spelled⟩

theorem separated_viable {connective : Connective} {operand : Parser Expr}
    (parses : Parses bound barred Language operand) (viable : FailsViably Language operand) :
    FailsViably (Joined connective Language) (Parser.separated connective operand) := by
  intro text rest fails
  rcases Parser.bind_fails.mp fails with fails | ⟨first, mid, parsed, fails⟩
  · apply (viable text rest fails).mono
    rintro tokens ⟨expr, spelled⟩
    exact ⟨expr, .single spelled⟩
  obtain ⟨tokens, spelled, reads, _⟩ := parses.sound parsed
  have further := (delimits_keyword connective.name operand).many_viable parses viable
    keyword_item_aborts (Parser.map_fails.mp fails)
  apply further.after reads
  rintro later ⟨others, several, further⟩
  exact ⟨_, .group spelled several further⟩

end

theorem expressionWithin_viable (depth : Nat) :
    FailsViably Expr.Spelled (Parser.expressionWithin depth) := by
  induction depth with
  | zero =>
      rintro text _ ⟨_, ⟨⟨⟩⟩ | ⟨⟨⟩⟩, rfl⟩
      obtain ⟨word, is, _⟩ := exists_keyword (by decide : "allow" ∈ keywords)
      exact .line (.refl text) (Token.word word).writes (by simp)
        ⟨.constant true, spelled_of_primary (.constant is)⟩
  | succ depth ih =>
      have parses := expressionWithin_parses depth
      have negated := unary_viable (primary_viable parses ih)
      have conjunction : FailsViably (Joined .and (Negated (Primary Expr.Spelled))) _ :=
        separated_viable (unary_parses (primary_parses parses) primary_not_leads) negated
      intro text rest fails
      have disjunction := separated_viable (conjunction_parses parses) conjunction text rest fails
      apply disjunction.mono
      rintro tokens ⟨expr, spelled⟩
      exact ⟨expr, .intro spelled⟩

theorem expression_viable : FailsViably Expr.Spelled Parser.expression := by
  rintro text rest ⟨failure, failed, left⟩
  rw [Parser.expression] at failed
  exact expressionWithin_viable _ text rest ⟨failure, failed, left⟩

/-! ### Statements -/

def Continues (text : List Char) (tokens : List Token) : Prop :=
  (∃ statements, Program statements tokens) ∧ (Stops ["or", "and"] text → Separate tokens)

section

variable {text mid rest : List Char}

theorem Continues.statement {statement : Statement} {tokens : List Token}
    (spelled : statement.Spelled tokens) (separate : Stops ["or", "and"] text → Separate tokens) :
    Continues text tokens := by
  refine ⟨⟨[statement], ?_⟩, separate⟩
  have alone : Separate [] := by simp [Separate]
  exact program_cons.mpr ⟨tokens, [], by simp, spelled, fun _ => alone, .nil⟩

theorem defaultPolicy_aborts (aborts : Parser.defaultPolicy.Aborts text rest) : rest = text := by
  rw [Parser.defaultPolicy, Parser.expecting_aborts, Parser.commit_aborts] at aborts
  rcases Parser.orElse_fails aborts with here | aborts | ⟨_, aborts⟩
  · exact here
  · exact absurd (Parser.map_aborts.mp aborts) Parser.keyword_aborts
  · exact absurd (Parser.map_aborts.mp aborts) Parser.keyword_aborts

theorem defaultStatement_viable
    (aborts : Parser.defaultStatement.Aborts (afterGap text) rest) :
    Viable (Continues text) text rest := by
  rcases Parser.bind_aborts.mp aborts with aborts | ⟨_, mid, read, aborts⟩
  · exact absurd aborts Parser.keyword_aborts
  obtain ⟨first, is, reads⟩ := reads_keyword.mp read
  rw [Parser.gap_aborts, Parser.map_aborts] at aborts
  obtain rfl := defaultPolicy_aborts aborts
  obtain ⟨word, tells, _⟩ := exists_keyword (by decide : "allow" ∈ keywords)
  have stated : Statement.Spelled (.default .allow) [.word first, .word word] := .default is tells
  exact .missing reads (Token.word word).writes (by simp) (.statement stated reads.stops_iff.mp)

theorem body_aborts (aborts : Parser.body.Aborts text rest) : Parser.expression.Fails text rest := by
  rwa [Parser.body, Parser.expecting_aborts, Parser.commit_aborts] at aborts

theorem fallbackStatement_viable
    (aborts : Parser.fallbackStatement.Aborts (afterGap text) rest) :
    Viable (Continues text) text rest := by
  rcases Parser.bind_aborts.mp aborts with aborts | ⟨_, mid, read, aborts⟩
  · exact absurd aborts Parser.keyword_aborts
  obtain ⟨word, is, reads⟩ := reads_keyword.mp read
  rcases Parser.bind_aborts.mp (Parser.gap_aborts.mp aborts) with aborts | ⟨_, start, found, aborts⟩
  · exact absurd aborts Parser.char_aborts
  have colon := reads_colon.mpr (Parser.char_eq_ok.mp found)
  have missing := body_aborts (Parser.map_aborts.mp aborts)
  apply (expression_viable start rest missing).after (reads.append colon)
  rintro tokens ⟨expr, spelled⟩
  exact .statement (.fallback is spelled) reads.stops_iff.mp

theorem fieldName_aborts (aborts : Parser.fieldName.Aborts text rest) : rest = text := by
  rw [Parser.fieldName, Parser.expecting_aborts, Parser.commit_aborts] at aborts
  rcases Parser.orElse_fails aborts with here | aborts | ⟨_, aborts⟩
  · exact here
  · exact absurd (Parser.map_aborts.mp aborts) Parser.char_aborts
  · exact absurd (Parser.map_aborts.mp aborts) Parser.identifierSuch_aborts

theorem exists_body : ∃ characters tokens, Writes (':' :: characters) (.colon :: tokens) ∧
    Expr.Spelled (.constant true) tokens := by
  obtain ⟨word, is, _⟩ := exists_keyword (by decide : "allow" ∈ keywords)
  exact ⟨word.text, [.word word], (Token.word word).writes.mark .colon id,
    spelled_of_primary (.constant is)⟩

theorem dotted_viable {parentType : Word} (reads : Reads text [.word parentType] ('.' :: rest))
    (distinct : ¬ parentType.Is "default") : Viable (Continues text) text rest := by
  obtain ⟨name, _, _⟩ := exists_keyword (by decide : "allow" ∈ keywords)
  obtain ⟨characters, tokens, writes, spelled⟩ := exists_body
  obtain ⟨found, _⟩ := reads_word.mp reads
  rcases afterGap_skips text with ⟨gap, blank, split⟩ | ⟨_, empty⟩
  · rw [found] at split
    -- a name has to come right after the dot, so this is the one place where no line ends
    refine ⟨gap ++ parentType.text ++ ['.'], name.text ++ ':' :: characters,
      .head parentType (some name) :: .colon :: tokens, by simp [split], ?_, ?_, ?_⟩
    · apply Continues.statement (.head distinct spelled)
      intro stops
      have separate : Separate [.word parentType] := reads.stops_iff.mp stops
      simpa [Separate, Token.leading?] using separate
    · have whole := (Token.head parentType (some name)).writes.append writes
        (separates_cons (by decide))
      simpa [Token.text] using whole.gap (by simp) blank
    · intro ends other _
      rw [split, ← List.append_assoc] at ends
      simpa using ends.congr fun _ => ends_cons (by decide)
  · simp [found, Word.text] at empty

theorem fieldStatement_viable (other : ¬ Leads "default" text)
    (aborts : Parser.fieldStatement.Aborts (afterGap text) rest) :
    Viable (Continues text) text rest := by
  rcases Parser.bind_aborts.mp aborts with untyped | ⟨_, mid, read, undotted⟩
  · exact absurd untyped Parser.identifierSuch_aborts
  obtain ⟨parentType, rfl, _, ends, found⟩ := Parser.identifierSuch_eq_ok.mp read
  have leading := reads_word.mpr ⟨found, ends⟩
  have distinct : ¬ parentType.Is "default" := fun is =>
    other (leading.leads_iff.mpr ⟨parentType, rfl, is⟩)
  rcases Parser.bind_aborts.mp undotted with undotted | ⟨_, later, dot, unnamed⟩
  · exact absurd undotted Parser.char_aborts
  obtain rfl := Parser.char_eq_ok.mp dot
  rcases Parser.bind_aborts.mp unnamed with unnamed | ⟨field, last, named, unmarked⟩
  · obtain rfl := fieldName_aborts unnamed
    exact dotted_viable leading distinct
  obtain ⟨name, reads, _⟩ := fieldName_head found named
  rcases Parser.bind_aborts.mp (Parser.gap_aborts.mp unmarked) with unmarked | ⟨_, start, read, missing⟩
  · obtain rfl := Parser.char_fails (Parser.commit_aborts.mp unmarked)
    obtain ⟨characters, tokens, writes, spelled⟩ := exists_body
    exact .missing reads writes (by simp)
      (.statement (.head distinct spelled) reads.stops_iff.mp)
  · have colon := reads_colon.mpr (Parser.char_eq_ok.mp (Parser.commit_eq_ok.mp read))
    have expected := expression_viable start rest (body_aborts (Parser.map_aborts.mp missing))
    apply expected.after (reads.append colon)
    rintro tokens ⟨expr, spelled⟩
    exact .statement (.head distinct spelled) reads.stops_iff.mp

theorem statement_viable (aborts : Parser.statement.Aborts text rest) :
    Viable (Continues text) text rest := by
  rw [Parser.statement, Parser.gap_aborts, Parser.orElse_aborts, Parser.orElse_aborts] at aborts
  rcases aborts with aborts | ⟨other, aborts | ⟨_, aborts⟩⟩
  · exact defaultStatement_viable aborts
  · exact fallbackStatement_viable aborts
  · exact fieldStatement_viable (defaultStatement_passes.mp other) aborts

end

/-! ### Whole texts -/

theorem reached_viable {text mid rest : List Char}
    (reaches : Parser.Reaches Parser.statement text mid) (viable : Viable (Continues mid) mid rest) :
    Viable (Continues text) text rest := by
  induction reaches with
  | here => exact viable
  | more read _ ih =>
      obtain ⟨tokens, spelled, reads, stops⟩ := statement_sound read
      obtain ⟨token, others, rfl, _⟩ := statement_begins spelled
      apply (ih viable).after reads
      rintro later ⟨⟨statements, program⟩, separate⟩
      refine ⟨⟨_ :: statements, program_cons.mpr ⟨_, later, rfl, spelled, ?_, program⟩⟩, ?_⟩
      -- where an expression stopped, what is written there does not go on with it
      · exact fun rule => separate (stops rule)
      · exact reads.stops_iff.mp

theorem statements_viable {text rest : List Char} (fails : Parser.statements.Fails text rest) :
    Viable (Continues text) text rest := by
  rcases Parser.bind_fails.mp fails with fails | ⟨found, last, repeated, fails⟩
  · obtain ⟨last, reaches, aborts⟩ := Parser.many_fails fails
    exact reached_viable reaches (statement_viable aborts)
  · rw [Parser.gap_fails] at fails
    exact absurd fails Parser.pure_fails

theorem unread_viable {text rest : List Char} {found : List Statement}
    (read : Parser.statements text = .ok found rest) : Viable (Continues text) text rest := by
  simp only [Parser.statements, Parser.bind_eq_ok, Parser.gap_bind, Parser.pure_eq_ok,
    statement_advances.many_eq_ok] at read
  obtain ⟨_, last, repeats, rfl, rfl⟩ := read
  apply reached_viable repeats.reaches
  -- where no statement begins one more can still be written
  obtain ⟨first, is, _⟩ := exists_keyword (by decide : "default" ∈ keywords)
  obtain ⟨second, tells, _⟩ := exists_keyword (by decide : "allow" ∈ keywords)
  have writes := (Token.word first).writes.append
    ((Token.word second).writes.space (by simp)) (separates_cons (by decide))
  have stated : Statement.Spelled (.default .allow) [.word first, .word second] := .default is tells
  apply Viable.line (afterGap_skips last) writes (by simp)
  exact .statement stated fun _ => separate_word is (by decide) (by decide)

theorem viable_parses {text : String} {rest : List Char}
    (viable : Viable (Continues text.toList) text.toList rest) :
    ∃ before after more : String, ∃ document, text = before ++ after ∧ after.toList = rest ∧
      parse (before ++ more) = .ok document := by
  obtain ⟨gone, more, tokens, split, ⟨⟨statements, program⟩, _⟩, writes, _⟩ := viable
  refine ⟨.ofList gone, .ofList rest, .ofList more, .ofStatements statements, ?_, by simp, ?_⟩
  · rw [← String.toList_inj]
    simpa using split
  · refine parse_program program (layout_iff_reads.mpr ⟨[], ?_, afterGap_nil⟩)
    simpa using writes [] ends_nil

theorem parse_rejects {text : String} {complaint : Complaint}
    (rejected : parse text = .error complaint) : ∃ rest expected,
      complaint = .ofRest text.toList rest expected ∧
      Viable (Continues text.toList) text.toList rest := by
  rw [parse] at rejected
  split at rejected
  next => simp at rejected
  next rest _ read =>
    cases rejected
    exact ⟨_, _, rfl, unread_viable read⟩
  next failure read =>
    cases rejected
    exact ⟨_, _, rfl, statements_viable ⟨failure, .inl read, rfl⟩⟩
  next failure read =>
    cases rejected
    exact ⟨_, _, rfl, statements_viable ⟨failure, .inr read, rfl⟩⟩

/-- The place of a complaint is one in the text, and what comes before it is the beginning of a text
that is parsed. -/
theorem parse_complaint_viable {text : String} {complaint : Complaint}
    (rejected : parse text = .error complaint) :
    complaint.offset ≤ text.utf8ByteSize ∧ ∃ before after : String, text = before ++ after ∧
      before.utf8ByteSize = complaint.offset ∧
      ∃ (more : String) (document : Document), parse (before ++ more) = .ok document := by
  obtain ⟨rest, expected, rfl, viable⟩ := parse_rejects rejected
  obtain ⟨before, after, more, document, rfl, rfl, parsed⟩ := viable_parses viable
  have place : (Complaint.ofRest (before ++ after).toList after.toList expected).offset =
      before.utf8ByteSize := by
    simp [Complaint.ofRest, Complaint.offset, Complaint.byteLength]
  rw [place]
  refine ⟨?_, before, after, rfl, rfl, more, document, parsed⟩
  simp

theorem parse_complaint_viable_unclosed : ∃ complaint,
    parse "fallback: race(a b" = .error complaint ∧ complaint.offset = 17 ∧
      ∃ before after : String, "fallback: race(a b" = before ++ after ∧
        before.utf8ByteSize = complaint.offset ∧
        ∃ (more : String) (document : Document), parse (before ++ more) = .ok document := by
  have rejected : parse "fallback: race(a b" =
      .error (.ofRest "fallback: race(a b".toList ['b'] ["rule expression", "rule body"]) := by
    with_unfolding_all rfl
  exact ⟨_, rejected, by with_unfolding_all rfl, (parse_complaint_viable rejected).2⟩

end FieldGuard.Policy
