import FieldGuard.Proofs.Expressions

set_option autoImplicit false

namespace FieldGuard.Policy

variable {text rest : List Char} {statement : Statement}

theorem defaultPolicy_eq_ok {policy : DefaultPolicy} :
    Parser.defaultPolicy (afterGap text) = .ok policy rest ↔
      ∃ word : Word, word.Is (constantName policy.allows) ∧ Reads text [.word word] rest := by
  simp only [Parser.defaultPolicy, Parser.expecting_eq_ok, Parser.commit_eq_ok,
    Parser.orElse_eq_ok, Parser.bind_eq_ok, Parser.pure_eq_ok, Parser.bind_passes,
    Parser.keyword_passes, reads_keyword]
  constructor
  · rintro (⟨_, _, named, rfl, rfl⟩ | ⟨_, _, _, named, rfl, rfl⟩)
    · exact named
    · exact named
  · rintro ⟨word, is, reads⟩
    cases policy with
    | allow => exact .inl ⟨(), rest, ⟨word, is, reads⟩, rfl, rfl⟩
    | deny =>
        refine .inr ⟨.inl ?_, (), rest, ⟨word, is, reads⟩, rfl, rfl⟩
        rw [reads.leads_iff]
        rintro ⟨_, ⟨⟩, allow⟩
        exact not_keyword is (by decide) (by decide) (by decide) allow

theorem defaultStatement_eq_ok :
    Parser.defaultStatement (afterGap text) = .ok statement rest ↔ ∃ first mid policy second,
      first.Is "default" ∧ Reads text [.word first] mid ∧
      second.Is (constantName policy.allows) ∧ Reads mid [.word second] rest ∧
      .default policy = statement := by
  simp only [Parser.defaultStatement, Parser.bind_eq_ok, Parser.gap_bind, Parser.pure_eq_ok,
    reads_keyword, defaultPolicy_eq_ok]
  constructor
  · rintro ⟨_, mid, ⟨first, is, reads⟩, policy, _, ⟨second, tells, left⟩, rfl, rfl⟩
    exact ⟨first, mid, policy, second, is, reads, tells, left, rfl⟩
  · rintro ⟨first, mid, policy, second, is, reads, tells, left, rfl⟩
    exact ⟨(), mid, ⟨first, is, reads⟩, policy, rest, ⟨second, tells, left⟩, rfl, rfl⟩

theorem defaultStatement_passes :
    Parser.defaultStatement.Passes (afterGap text) ↔ ¬ Leads "default" text := by
  have committed (mid : List Char) : ¬ Parser.defaultPolicy.Passes mid := by
    rw [Parser.defaultPolicy, Parser.expecting_passes]
    exact Parser.commit_passes
  rw [Parser.defaultStatement, Parser.bind_passes, Parser.keyword_passes]
  simp only [Parser.gap_passes]
  simp [Parser.bind_passes, Parser.pure_passes, committed]

theorem body_eq_ok {expr : Expr} :
    Parser.body text = .ok expr rest ↔ Parser.expression text = .ok expr rest := by
  rw [Parser.body, Parser.expecting_eq_ok, Parser.commit_eq_ok]

theorem fallbackStatement_eq_ok :
    Parser.fallbackStatement (afterGap text) = .ok statement rest ↔ ∃ word mid start expr,
      word.Is "fallback" ∧ Reads text [.word word] mid ∧ Reads mid [.colon] start ∧
      Parser.expression start = .ok expr rest ∧ .rule .fallback expr = statement := by
  simp only [Parser.fallbackStatement, Parser.bind_eq_ok, Parser.gap_bind, Parser.pure_eq_ok,
    reads_keyword, Parser.char_eq_ok, body_eq_ok, reads_colon]
  constructor
  · rintro ⟨_, mid, ⟨word, is, reads⟩, _, start, colon, expr, _, parsed, rfl, rfl⟩
    exact ⟨word, mid, start, expr, is, reads, colon, parsed, rfl⟩
  · rintro ⟨word, mid, start, expr, is, reads, colon, parsed, rfl⟩
    exact ⟨(), mid, ⟨word, is, reads⟩, (), start, colon, expr, rest, parsed, rfl, rfl⟩

theorem fieldName_eq_ok {field : Option (List Char)} :
    Parser.fieldName text = .ok field rest ↔ (text = '*' :: rest ∧ field = none) ∨
      ∃ word : Word, Ends rest ∧ text = word.text ++ rest ∧ field = some word.text := by
  simp only [Parser.fieldName, Parser.expecting_eq_ok, Parser.commit_eq_ok, Parser.orElse_eq_ok,
    Parser.bind_eq_ok, Parser.pure_eq_ok, Parser.bind_passes, Parser.char_passes,
    Parser.char_eq_ok, Parser.identifier, Parser.identifierSuch_eq_ok]
  constructor
  · rintro (⟨_, _, star, rfl, rfl⟩ | ⟨_, _, _, ⟨word, rfl, _, ends, split⟩, rfl, rfl⟩)
    · exact .inl ⟨star, rfl⟩
    · exact .inr ⟨word, ends, split, rfl⟩
  · rintro (⟨star, rfl⟩ | ⟨word, ends, split, rfl⟩)
    · exact .inl ⟨(), rest, star, rfl, rfl⟩
    · refine .inr ⟨.inl ?_, word.text, rest, ⟨word, rfl, trivial, ends, split⟩, rfl, rfl⟩
      -- no word begins with a star
      rintro later star
      have initial := word.initial_allowed
      have same : word.initial = '*' := by
        rw [split, Word.text, List.cons_append] at star
        exact (List.cons.inj star).1
      simp [same, isInitial] at initial

theorem fieldName_head {parentType : Word} {field : Option (List Char)} {later : List Char}
    (found : afterGap text = parentType.text ++ '.' :: later)
    (named : Parser.fieldName later = .ok field rest) :
    ∃ name : Option Word, Reads text [.head parentType name] rest ∧
      Parser.targetOf parentType.text field = parentType.target name := by
  rcases fieldName_eq_ok.mp named with ⟨rfl, rfl⟩ | ⟨name, ends, rfl, rfl⟩
  · exact ⟨none, by simp [Reads, Token.text, Token.EndsInWord, found], rfl⟩
  · exact ⟨some name, by simp [Reads, Token.text, Token.EndsInWord, found, ends], rfl⟩

theorem fieldStatement_eq_ok :
    Parser.fieldStatement (afterGap text) = .ok statement rest ↔ ∃ parentType field mid start expr,
      Reads text [.head parentType field] mid ∧ Reads mid [.colon] start ∧
      Parser.expression start = .ok expr rest ∧
      .rule (parentType.target field) expr = statement := by
  simp only [Parser.fieldStatement, Parser.bind_eq_ok, Parser.gap_bind, Parser.pure_eq_ok,
    Parser.char_eq_ok, Parser.commit_eq_ok, body_eq_ok, reads_colon, Parser.identifier,
    Parser.identifierSuch_eq_ok]
  constructor
  · rintro ⟨_, _, ⟨parentType, rfl, _, ends, split⟩, _, later, rfl, field, mid, named, _, start,
      colon, expr, _, parsed, rfl, rfl⟩
    obtain ⟨name, reads, same⟩ := fieldName_head split named
    exact ⟨parentType, name, mid, start, expr, reads, colon, parsed, by rw [same]⟩
  · rintro ⟨parentType, field, mid, start, expr, ⟨_, found, closes, rfl⟩, colon, parsed, rfl⟩
    have ends (later : List Char) : Ends ('.' :: later) := ends_cons (by decide)
    cases field with
    | none =>
        rw [Token.text, List.append_assoc] at found
        exact ⟨_, _, ⟨parentType, rfl, trivial, ends _, found⟩, (), _, rfl, none, _,
          fieldName_eq_ok.mpr (.inl ⟨rfl, rfl⟩), (), start, colon, expr, rest, parsed, rfl, rfl⟩
    | some name =>
        rw [Token.text, List.append_assoc] at found
        exact ⟨_, _, ⟨parentType, rfl, trivial, ends _, found⟩, (), _, rfl, some name.text, _,
          fieldName_eq_ok.mpr (.inr ⟨name, closes trivial, rfl, rfl⟩), (), start, colon, expr, rest,
          parsed, rfl, rfl⟩

theorem fallbackStatement_passes_head {parentType : Word} {field : Option Word}
    (reads : Reads text [.head parentType field] rest) :
    Parser.fallbackStatement.Passes (afterGap text) := by
  rw [Parser.fallbackStatement, Parser.bind_passes, Parser.keyword_passes]
  -- a type may be spelled as the keyword, but then a dot comes where the colon would
  by_cases leads : Leads "fallback" text
  · obtain ⟨_, ⟨⟩, is⟩ := reads.leads_iff.mp leads
    obtain ⟨mid, found, _, rfl⟩ := reads
    obtain ⟨later, split⟩ : ∃ later, afterGap text = parentType.text ++ '.' :: later := by
      cases field with
      | none => exact ⟨'*' :: mid, by simp [found, Token.text]⟩
      | some name => exact ⟨name.text ++ mid, by simp [found, Token.text]⟩
    have ends : Ends ('.' :: later) := ends_cons (by decide)
    refine .inr ⟨(), '.' :: later, Parser.keyword_eq_ok.mpr ⟨parentType, is, ends, split⟩, ?_⟩
    rw [Parser.gap_passes, Parser.bind_passes, afterGap_mark (by decide) (by decide)]
    exact .inl (Parser.char_passes.mpr (by simp))
  · exact .inl leads

theorem statement_eq_ok : Parser.statement text = .ok statement rest ↔
    Parser.defaultStatement (afterGap text) = .ok statement rest ∨ ¬ Leads "default" text ∧
      (Parser.fallbackStatement (afterGap text) = .ok statement rest ∨
        Parser.fallbackStatement.Passes (afterGap text) ∧
          Parser.fieldStatement (afterGap text) = .ok statement rest) := by
  rw [Parser.statement, Parser.gap_bind, Parser.orElse_eq_ok, Parser.orElse_eq_ok,
    defaultStatement_passes]

theorem statement_sound (read : Parser.statement text = .ok statement rest) :
    ∃ tokens, statement.Spelled tokens ∧ Reads text tokens rest ∧
      (statement.rule?.isSome → Stops ["or", "and"] rest) := by
  rcases statement_eq_ok.mp read with chosen | ⟨other, chosen | ⟨_, chosen⟩⟩
  · obtain ⟨first, mid, policy, second, is, reads, tells, left, rfl⟩ :=
      defaultStatement_eq_ok.mp chosen
    exact ⟨_, .default is tells, reads.append left, by simp [Statement.rule?]⟩
  · obtain ⟨word, mid, start, expr, is, reads, colon, parsed, rfl⟩ :=
      fallbackStatement_eq_ok.mp chosen
    obtain ⟨tokens, spelled, left, stops⟩ := expression_sound parsed
    exact ⟨_, .fallback is spelled, (reads.append colon).append left, fun _ => stops⟩
  · obtain ⟨parentType, field, mid, start, expr, reads, colon, parsed, rfl⟩ :=
      fieldStatement_eq_ok.mp chosen
    obtain ⟨tokens, spelled, left, stops⟩ := expression_sound parsed
    have distinct : ¬ parentType.Is "default" := fun is =>
      other (reads.leads_iff.mpr ⟨parentType, rfl, is⟩)
    exact ⟨_, .head distinct spelled, (reads.append colon).append left, fun _ => stops⟩

theorem statement_complete {tokens : List Token} (spelled : statement.Spelled tokens)
    (reads : Reads text tokens rest)
    (free : statement.rule?.isSome → Stops ["or", "and"] rest ∧ ¬ Calls rest) :
    Parser.statement text = .ok statement rest := by
  rw [statement_eq_ok]
  cases spelled with
  | @default policy first second is tells =>
      obtain ⟨mid, reads, left⟩ := Reads.cons_iff.mp reads
      exact .inl (defaultStatement_eq_ok.mpr
        ⟨first, mid, policy, second, is, reads, tells, left, rfl⟩)
  | @fallback word expr tokens is spelled =>
      obtain ⟨mid, reads, left⟩ := Reads.cons_iff.mp reads
      obtain ⟨start, colon, left⟩ := Reads.cons_iff.mp left
      obtain ⟨stops, uncalled⟩ := free rfl
      have other : ¬ Leads "default" text := by
        rw [reads.leads_iff]
        rintro ⟨_, ⟨⟩, also⟩
        exact not_keyword is (by decide) (by decide) (by decide) also
      have parsed := expression_complete spelled left stops uncalled
      exact .inr ⟨other, .inl (fallbackStatement_eq_ok.mpr
        ⟨word, mid, start, expr, is, reads, colon, parsed, rfl⟩)⟩
  | @head parentType field expr tokens distinct spelled =>
      obtain ⟨mid, reads, left⟩ := Reads.cons_iff.mp reads
      obtain ⟨start, colon, left⟩ := Reads.cons_iff.mp left
      obtain ⟨stops, uncalled⟩ := free rfl
      have other : ¬ Leads "default" text := by
        rw [reads.leads_iff]
        rintro ⟨_, ⟨⟩, is⟩
        exact distinct is
      have parsed := expression_complete spelled left stops uncalled
      exact .inr ⟨other, .inr ⟨fallbackStatement_passes_head reads, fieldStatement_eq_ok.mpr
        ⟨parentType, field, mid, start, expr, reads, colon, parsed, rfl⟩⟩⟩

theorem statement_begins {tokens : List Token} (spelled : statement.Spelled tokens) :
    ∃ token later, tokens = token :: later ∧ token ≠ .opening := by
  cases spelled <;> exact ⟨_, _, rfl, by simp⟩

theorem statement_passes_end (last : afterGap text = []) : Parser.statement.Passes text := by
  rw [Parser.statement, Parser.gap_passes]
  apply Parser.orElse_passes
  · exact defaultStatement_passes.mpr (not_leads_of_end last)
  apply Parser.orElse_passes
  · exact Parser.bind_passes.mpr (.inl (Parser.keyword_passes.mpr (not_leads_of_end last)))
  · rw [last]
    exact ⟨_, rfl⟩

theorem statement_advances : Parser.statement.Advances where
  ends := statement_passes_end afterGap_nil
  shortens := by
    intro text statement rest read
    obtain ⟨tokens, spelled, reads, _⟩ := statement_sound read
    obtain ⟨token, later, rfl, _⟩ := statement_begins spelled
    have := reads.length_le
    rw [List.length_cons] at this
    omega

theorem Reads.stops_iff {token : Token} {tokens later : List Token}
    (reads : Reads text (token :: tokens) rest) :
    Stops ["or", "and"] text ↔ Separate (token :: later) := by
  simp only [Stops, Separate, reads.leads_iff]
  cases leading : token.leading? <;> simp [leading, and_comm]

theorem stops_iff_separate {tokens : List Token} (reads : Reads text tokens rest)
    (last : afterGap rest = []) : Stops ["or", "and"] text ↔ Separate tokens := by
  cases tokens with
  | nil =>
      obtain rfl : text = rest := reads
      simp [Stops, Separate, not_leads_of_end last]
  | cons token tokens => exact reads.stops_iff

theorem program_uncalled {statements : List Statement} {tokens : List Token}
    (program : Program statements tokens) (reads : Reads text tokens rest)
    (last : afterGap rest = []) : ¬ Calls text := by
  have uncalled {statement : Statement} {tokens later : List Token}
      (spelled : statement.Spelled tokens) (reads : Reads text (tokens ++ later) rest) :
      ¬ Calls text := by
    obtain ⟨token, others, rfl, distinct⟩ := statement_begins spelled
    exact fun calls => distinct (reads.calls_iff.mp calls)
  cases program with
  | nil =>
      obtain rfl : text = rest := reads
      exact not_calls_of_end last
  | default spelled _ => exact uncalled spelled reads
  | rule spelled _ _ => exact uncalled spelled reads

theorem program_of_repeats {statements : List Statement}
    (repeats : Parser.Repeats Parser.statement text statements rest) (last : afterGap rest = []) :
    ∃ tokens, Program statements tokens ∧ Reads text tokens rest := by
  induction repeats with
  | stop _ => exact ⟨[], .nil, rfl⟩
  | @more text mid rest statement statements read _ ih =>
      obtain ⟨tokens, spelled, reads, stops⟩ := statement_sound read
      obtain ⟨later, program, left⟩ := ih last
      refine ⟨tokens ++ later, ?_, reads.append left⟩
      cases statement with
      | default policy => exact .default spelled program
      | rule target expr =>
          -- where the expression stopped, what comes next does not go on with it
          exact .rule spelled ((stops_iff_separate left last).mp (stops rfl)) program

theorem repeats_of_program {statements : List Statement} {tokens : List Token}
    (program : Program statements tokens) (reads : Reads text tokens rest)
    (last : afterGap rest = []) : Parser.Repeats Parser.statement text statements rest := by
  induction program generalizing text with
  | nil =>
      obtain rfl : text = rest := reads
      exact .stop (statement_passes_end last)
  | default spelled _ ih =>
      obtain ⟨mid, reads, left⟩ := Reads.append_iff.mp reads
      exact .more (statement_complete spelled reads nofun) (ih left)
  | rule spelled separate program ih =>
      obtain ⟨mid, reads, left⟩ := Reads.append_iff.mp reads
      have stops := (stops_iff_separate left last).mpr separate
      have uncalled := program_uncalled program left last
      exact .more (statement_complete spelled reads fun _ => ⟨stops, uncalled⟩) (ih left)

theorem statements_eq_ok {statements : List Statement} :
    Parser.statements text = .ok statements [] ↔
      ∃ tokens, Program statements tokens ∧ Layout tokens text := by
  simp only [Parser.statements, Parser.bind_eq_ok, Parser.gap_bind, Parser.pure_eq_ok,
    statement_advances.many_eq_ok, layout_iff_reads]
  constructor
  · rintro ⟨_, rest, repeats, rfl, last⟩
    obtain ⟨tokens, program, reads⟩ := program_of_repeats repeats last
    exact ⟨tokens, program, rest, reads, last⟩
  · rintro ⟨tokens, program, rest, reads, last⟩
    exact ⟨statements, rest, repeats_of_program program reads last, rfl, last⟩

theorem parse_accepts {document : Document} {text : String} : parse text = .ok document ↔
    ∃ statements, Parser.statements text.toList = .ok statements [] ∧
      document = .ofStatements statements := by
  rw [parse]
  split
  next found read => simp [read, eq_comm]
  next found rest unread read => simpa [read] using fun empty => absurd empty unread
  next failure read => simp [read]
  next failure read => simp [read]

theorem parse_program {text : String} {statements : List Statement} {tokens : List Token}
    (program : Program statements tokens) (layout : Layout tokens text.toList) :
    parse text = .ok (.ofStatements statements) :=
  parse_accepts.mpr ⟨statements, statements_eq_ok.mpr ⟨tokens, program, layout⟩, rfl⟩

/-- The texts that are accepted are the layouts of programs, and the document tells the defaults and
the rules among their statements. -/
theorem parse_eq_ok_iff (text : String) (document : Document) :
    parse text = .ok document ↔ ∃ statements tokens, Program statements tokens ∧
      Layout tokens text.toList ∧ Interleaves statements document.defaults document.rules := by
  simp only [parse_accepts, statements_eq_ok, interleaves_iff]
  constructor
  · rintro ⟨statements, ⟨tokens, program, layout⟩, same⟩
    exact ⟨statements, tokens, program, layout, same⟩
  · rintro ⟨statements, tokens, program, layout, same⟩
    exact ⟨statements, ⟨tokens, program, layout⟩, same⟩

theorem parse_eq_ok_iff_interleaved :
    parse "T.x: a default deny fallback: a" =
      .ok ⟨[.deny], [(.field "T" "x", .reference "a"), (.fallback, .reference "a")]⟩ := by
  let type : Word := ⟨'T', [], by decide, nofun⟩
  let field : Word := ⟨'x', [], by decide, nofun⟩
  let name : Word := ⟨'a', [], by decide, nofun⟩
  let standard : Word := ⟨'d', "efault".toList, by decide, List.all_eq_true.mp (by decide)⟩
  let denial : Word := ⟨'d', "eny".toList, by decide, List.all_eq_true.mp (by decide)⟩
  let others : Word := ⟨'f', "allback".toList, by decide, List.all_eq_true.mp (by decide)⟩
  have free : ∀ keyword ∈ reserved, ¬ name.Is keyword := by decide
  have reference : Expr.Spelled (.reference "a") [.word name] := spelled_of_primary (.reference free)
  have head : Statement.Spelled (.rule (.field "T" "x") (.reference "a"))
      [.head type (some field), .colon, .word name] :=
    @Statement.Spelled.head type (some field) _ _ (by decide) reference
  have default : Statement.Spelled (.default .deny) [.word standard, .word denial] :=
    .default (by decide) (by decide)
  have fallback : Statement.Spelled (.rule .fallback (.reference "a"))
      [.word others, .colon, .word name] := .fallback (by decide) reference
  have layout : Layout [.head type (some field), .colon, .word name, .word standard, .word denial,
      .word others, .colon, .word name] "T.x: a default deny fallback: a".toList := by
    -- a word ends where a mark or a space comes after it
    have ends {c : Char} {rest : List Char} (other : ¬ isSubsequent c) {token : Token} :
        token.EndsInWord → Ends (c :: rest) := fun _ => ends_cons other
    have space : Gap [' '] := .space (by decide) .empty
    exact @Layout.token _ _ [] ": a default deny fallback: a".toList .empty (ends (by decide)) <|
      @Layout.token _ _ [] " a default deny fallback: a".toList .empty nofun <|
      @Layout.token _ _ _ " default deny fallback: a".toList space (ends (by decide)) <|
      @Layout.token _ _ _ " deny fallback: a".toList space (ends (by decide)) <|
      @Layout.token _ _ _ " fallback: a".toList space (ends (by decide)) <|
      @Layout.token _ _ _ ": a".toList space (ends (by decide)) <|
      @Layout.token _ _ [] " a".toList .empty nofun <|
      @Layout.token _ _ _ [] space (fun _ => ends_nil) (.done (.gap .empty))
  have apart : Separate
      ([.word standard, .word denial] ++ ([.word others, .colon, .word name] ++ [])) := by
    rintro _ ⟨⟩ _ ⟨⟩
    decide
  have program := Program.rule head apart
    (.default default (.rule fallback (by rintro _ ⟨⟩) .nil))
  exact (parse_eq_ok_iff _ _).mpr ⟨_, _, program, layout, .rule (.default (.rule .nil))⟩

theorem program_spelled {statements : List Statement} {tokens : List Token}
    (program : Program statements tokens) :
    ∀ statement ∈ statements, ∃ spelling, statement.Spelled spelling := by
  induction program with
  | nil => exact nofun
  | default spelled _ ih => exact List.forall_mem_cons.mpr ⟨⟨_, spelled⟩, ih⟩
  | rule spelled _ _ ih => exact List.forall_mem_cons.mpr ⟨⟨_, spelled⟩, ih⟩

theorem parse_spelled {text : String} {document : Document} (parsed : parse text = .ok document)
    {entry : Target × Expr} (member : entry ∈ document.rules) :
    ∃ tokens, Statement.Spelled (.rule entry.1 entry.2) tokens := by
  obtain ⟨statements, read, rfl⟩ := parse_accepts.mp parsed
  obtain ⟨tokens, program, _⟩ := statements_eq_ok.mp read
  obtain ⟨statement, found, rule⟩ := List.mem_filterMap.mp member
  cases statement with
  | default policy => simp [Statement.rule?] at rule
  | rule target expr =>
    cases rule
    exact program_spelled program _ found

theorem spelled_target {target : Target} {expr : Expr} {tokens : List Token}
    (spelled : Statement.Spelled (.rule target expr) tokens) :
    target = .fallback ∨ ∃ (parentType : Word) (field : Option Word),
      target = parentType.target field := by
  cases spelled with
  | fallback _ _ => exact .inl rfl
  | @head parentType field _ _ _ _ => exact .inr ⟨parentType, field, rfl⟩

theorem parse_targets {text : String} {document : Document} (parsed : parse text = .ok document)
    {entry : Target × Expr} (member : entry ∈ document.rules) :
    entry.1 = .fallback ∨ ∃ (parentType : Word) (field : Option Word),
      entry.1 = parentType.target field := by
  obtain ⟨tokens, spelled⟩ := parse_spelled parsed member
  exact spelled_target spelled

end FieldGuard.Policy
