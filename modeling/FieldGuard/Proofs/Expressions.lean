import FieldGuard.Proofs.Combinators
import FieldGuard.Proofs.Grammar

set_option autoImplicit false

namespace FieldGuard.Policy

def Stops (barred : List String) (rest : List Char) : Prop :=
  ∀ keyword ∈ barred, ¬ Leads keyword rest

/-- The parser reads trees of the language and stops before the barred keywords; and it reads every
tree of fewer tokens than the bound that is laid out before something else than a barred keyword or
the operands of a call. -/
structure Parses (bound : Nat) (barred : List String) (Language : Expr → List Token → Prop)
    (parser : Parser Expr) : Prop where
  sound : ∀ {text expr rest}, parser text = .ok expr rest →
    ∃ tokens, Language expr tokens ∧ Reads text tokens rest ∧ Stops barred rest
  complete : ∀ {text expr tokens rest}, Language expr tokens → tokens.length < bound →
    Reads text tokens rest → Stops barred rest → ¬ Calls rest → parser text = .ok expr rest

def Opens (separator : Token → Prop) (text : List Char) : Prop :=
  ∃ between mid, separator between ∧ Reads text [between] mid

theorem Further.free {barred : List String} {separator : Token → Prop}
    {Language : Expr → List Token → Prop} {exprs : List Expr} {tokens : List Token}
    {text rest : List Char} (further : Further separator Language exprs tokens)
    (apart : ∀ {text}, Opens separator text → Stops barred text ∧ ¬ Calls text)
    (reads : Reads text tokens rest) (free : Stops barred rest ∧ ¬ Calls rest) :
    Stops barred text ∧ ¬ Calls text := by
  cases further with
  | none =>
      obtain rfl : text = rest := reads
      exact free
  | @one _ _ between _ _ separates _ _ =>
      obtain ⟨mid, first, _⟩ := Reads.cons_iff.mp reads
      exact apart ⟨between, mid, separates, first⟩

structure Delimits (separator : Token → Prop) (operand item : Parser Expr) : Prop where
  reads : ∀ {text expr rest}, item text = .ok expr rest ↔
    ∃ between mid, separator between ∧ Reads text [between] mid ∧ operand mid = .ok expr rest
  passes : ∀ {text}, item.Passes text ↔ ¬ Opens separator text

namespace Delimits

variable {bound : Nat} {barred : List String} {separator : Token → Prop}
  {Language : Expr → List Token → Prop} {operand item : Parser Expr}

theorem advances (delimits : Delimits separator operand item)
    (parses : Parses bound barred Language operand) : item.Advances where
  ends := delimits.passes.mpr <| by
    rintro ⟨between, mid, _, later, found, _⟩
    simp [afterGap_nil, between.text_ne_nil] at found
  shortens := by
    intro text expr rest parsed
    obtain ⟨between, mid, _, first, parsed⟩ := delimits.reads.mp parsed
    obtain ⟨tokens, _, second, _⟩ := parses.sound parsed
    have := first.length_le
    have := second.length_le
    rw [List.length_singleton] at *
    omega

theorem sound (delimits : Delimits separator operand item)
    (parses : Parses bound barred Language operand) {text rest : List Char} {exprs : List Expr}
    (repeats : Parser.Repeats item text exprs rest) (stops : Stops barred text) :
    ∃ tokens, Further separator Language exprs tokens ∧ Reads text tokens rest ∧
      Stops barred rest ∧ ¬ Opens separator rest := by
  induction repeats with
  | stop passes => exact ⟨[], .none, rfl, stops, delimits.passes.mp passes⟩
  | more parsed _ ih =>
      obtain ⟨between, mid, separates, first, parsed⟩ := delimits.reads.mp parsed
      obtain ⟨tokens, spelled, second, stops⟩ := parses.sound parsed
      obtain ⟨later, further, third, stops, closed⟩ := ih stops
      exact ⟨between :: tokens ++ later, .one separates spelled further,
        (first.append second).append third, stops, closed⟩

theorem complete (delimits : Delimits separator operand item)
    (parses : Parses bound barred Language operand)
    (apart : ∀ {text}, Opens separator text → Stops barred text ∧ ¬ Calls text)
    {text rest : List Char} {exprs : List Expr} {tokens : List Token}
    (further : Further separator Language exprs tokens) (short : tokens.length < bound)
    (reads : Reads text tokens rest) (free : Stops barred rest ∧ ¬ Calls rest)
    (closed : ¬ Opens separator rest) : Parser.Repeats item text exprs rest := by
  induction further generalizing text with
  | none =>
      obtain rfl : text = rest := reads
      exact .stop (delimits.passes.mpr closed)
  | @one expr exprs between tokens later separates spelled further ih =>
      simp only [List.length_append, List.length_cons] at short
      obtain ⟨mid, reads, third⟩ := Reads.append_iff.mp reads
      obtain ⟨first, reads, second⟩ := Reads.cons_iff.mp reads
      obtain ⟨stops, uncalled⟩ := further.free apart third free
      have parsed := parses.complete spelled (by omega) second stops uncalled
      exact .more (delimits.reads.mpr ⟨between, first, separates, reads, parsed⟩)
        (ih (by omega) third)

end Delimits

theorem opens_keyword {keyword : String} {text : List Char} :
    Opens (Token.Is keyword) text ↔ Leads keyword text := by
  rw [leads_iff_reads]
  constructor
  · rintro ⟨token, mid, is, reads⟩
    cases token with
    | word name => exact ⟨name, mid, is, reads⟩
    | _ => exact is.elim
  · rintro ⟨name, mid, is, reads⟩
    exact ⟨.word name, mid, is, reads⟩

theorem keyword_apart {keyword : String} {barred : List String} {text : List Char}
    (opens : Opens (Token.Is keyword) text)
    (apart : ∀ name, isKeyword keyword name → ∀ other ∈ barred, ¬ isKeyword other name) :
    Stops barred text ∧ ¬ Calls text := by
  obtain ⟨token, mid, is, reads⟩ := opens
  cases token with
  | word name =>
      constructor
      · intro other member leads
        obtain ⟨_, ⟨⟩, also⟩ := reads.leads_iff.mp leads
        exact apart _ is other member also
      · exact fun calls => nomatch reads.calls_iff.mp calls
  | _ => exact is.elim

theorem delimits_keyword (keyword : String) (operand : Parser Expr) :
    Delimits (Token.Is keyword) operand do
      Parser.gap
      Parser.keyword keyword
      Parser.commit operand where
  reads := by
    intro text expr rest
    rw [Parser.gap_bind, Parser.bind_eq_ok]
    simp only [reads_keyword, Parser.commit_eq_ok]
    constructor
    · rintro ⟨_, mid, ⟨word, is, reads⟩, parsed⟩
      exact ⟨.word word, mid, is, reads, parsed⟩
    · rintro ⟨token, mid, is, reads, parsed⟩
      cases token with
      | word name => exact ⟨(), mid, ⟨name, is, reads⟩, parsed⟩
      | _ => exact is.elim
  passes := by
    intro text
    rw [opens_keyword, ← Parser.keyword_passes]
    change Parser.Passes (Parser.keyword keyword >>= fun _ => Parser.commit operand) _ ↔ _
    simp [Parser.bind_passes, Parser.commit_passes]

theorem opens_comma {text : List Char} :
    Opens (· = .comma) text ↔ ∃ rest, afterGap text = ',' :: rest := by
  simp [Opens, reads_comma]

theorem delimits_comma (operand : Parser Expr) :
    Delimits (· = .comma) operand do
      Parser.gap
      Parser.char ','
      Parser.commit operand where
  reads := by
    intro text expr rest
    rw [Parser.gap_bind, Parser.bind_eq_ok]
    simp [Parser.char_eq_ok, Parser.commit_eq_ok, reads_comma]
  passes := by
    intro text
    rw [opens_comma, not_exists, ← Parser.char_passes]
    change Parser.Passes (Parser.char ',' >>= fun _ => Parser.commit operand) _ ↔ _
    simp [Parser.bind_passes, Parser.commit_passes]

theorem separated_eq_ok {connective : Connective} {operand : Parser Expr} {text rest : List Char}
    {expr : Expr} :
    Parser.separated connective operand text = .ok expr rest ↔ ∃ first mid others,
      operand text = .ok first mid ∧
      Parser.many (do
        Parser.gap
        Parser.keyword connective.name
        Parser.commit operand) mid = .ok others rest ∧
      Parser.joined connective first others = expr := by
  simp only [Parser.separated, Parser.bind_eq_ok, Parser.pure_eq_ok]
  constructor
  · rintro ⟨first, mid, parsed, others, _, repeated, rfl, rfl⟩
    exact ⟨first, mid, others, parsed, repeated, rfl⟩
  · rintro ⟨first, mid, others, parsed, repeated, rfl⟩
    exact ⟨first, mid, parsed, others, rest, repeated, rfl, rfl⟩

theorem separated_parses {bound : Nat} {barred : List String} {connective : Connective}
    {Language : Expr → List Token → Prop} {operand : Parser Expr}
    (parses : Parses bound barred Language operand)
    (apart : ∀ name, isKeyword connective.name name → ∀ keyword ∈ barred, ¬ isKeyword keyword name) :
    Parses bound (connective.name :: barred) (Joined connective Language)
      (Parser.separated connective operand) := by
  have delimits := delimits_keyword connective.name operand
  have advances := delimits.advances parses
  constructor
  case sound =>
    intro text expr rest read
    obtain ⟨first, mid, others, parsed, repeated, rfl⟩ := separated_eq_ok.mp read
    obtain ⟨tokens, spelled, reads, stops⟩ := parses.sound parsed
    obtain ⟨later, further, left, stops, closed⟩ :=
      delimits.sound parses (advances.many_eq_ok.mp repeated) stops
    refine ⟨tokens ++ later, ?_, reads.append left, ?_⟩
    · cases further with
      | none => simpa [Parser.joined] using Joined.single spelled
      | one separates next further =>
          exact .group spelled (by simp) (.one separates next further)
    · exact List.forall_mem_cons.mpr ⟨fun leads => closed (opens_keyword.mpr leads), stops⟩
  case complete =>
    intro text expr tokens rest joined short reads stops uncalled
    obtain ⟨closed, stops⟩ := List.forall_mem_cons.mp stops
    rw [← opens_keyword] at closed
    rw [separated_eq_ok]
    cases joined with
    | single spelled =>
        have parsed := parses.complete spelled short reads stops uncalled
        have repeated := advances.many_eq_ok.mpr (.stop (delimits.passes.mpr closed))
        exact ⟨expr, rest, [], parsed, repeated, rfl⟩
    | @group first others tokens later spelled several further =>
        rw [List.length_append] at short
        obtain ⟨mid, reads, left⟩ := Reads.append_iff.mp reads
        -- the operator of this level is none of those that bind more
        have free {text : List Char} (opens : Opens (Token.Is connective.name) text) :=
          keyword_apart opens apart
        obtain ⟨stopped, called⟩ := further.free free left ⟨stops, uncalled⟩
        have parsed := parses.complete spelled (by omega) reads stopped called
        have repeated := advances.many_eq_ok.mpr <|
          delimits.complete parses free further (by omega) left ⟨stops, uncalled⟩ closed
        refine ⟨first, mid, others, parsed, repeated, ?_⟩
        cases others with
        | nil => exact absurd rfl several
        | cons => rfl

theorem negation_eq_ok {value : Unit} {text rest : List Char} :
    Parser.negation text = .ok value rest ↔
      ∃ word : Word, word.Is "not" ∧ Reads text [.word word] rest := by
  rw [Parser.negation, Parser.gap_bind, reads_keyword]

theorem negation_passes {text : List Char} :
    Parser.negation.Passes text ↔ ¬ Leads "not" text := by
  rw [← Parser.keyword_passes]
  rfl

theorem negation_advances : Parser.negation.Advances where
  ends := negation_passes.mpr (not_leads_of_end afterGap_nil)
  shortens := by
    intro text value rest parsed
    obtain ⟨word, _, reads⟩ := negation_eq_ok.mp parsed
    have := reads.length_le
    rw [List.length_singleton] at this
    omega

theorem unary_eq_ok {expression : Parser Expr} {text rest : List Char} {expr : Expr} :
    Parser.unary expression text = .ok expr rest ↔ ∃ negations mid operand,
      Parser.Repeats Parser.negation text negations mid ∧
      Parser.primary expression mid = .ok operand rest ∧
      negations.foldr (fun _ expr => .not expr) operand = expr := by
  simp only [Parser.unary, Parser.bind_eq_ok, negation_advances.many_eq_ok]
  constructor
  · rintro ⟨negations, mid, repeated, chosen⟩
    obtain ⟨operand, left, parsed, rfl, rfl⟩ : ∃ operand left,
        Parser.primary expression mid = .ok operand left ∧
        negations.foldr (fun _ expr => .not expr) operand = expr ∧ left = rest := by
      split at chosen <;>
        simpa only [Parser.bind_eq_ok, Parser.pure_eq_ok, Parser.commit_eq_ok] using chosen
    exact ⟨negations, mid, operand, repeated, parsed, rfl⟩
  · rintro ⟨negations, mid, operand, repeated, parsed, rfl⟩
    refine ⟨negations, mid, repeated, ?_⟩
    split <;> simp only [Parser.bind_eq_ok, Parser.pure_eq_ok, Parser.commit_eq_ok] <;>
      exact ⟨operand, rest, parsed, rfl, rfl⟩

theorem unary_parses {bound : Nat} {Language : Expr → List Token → Prop}
    {expression : Parser Expr} (parses : Parses bound [] Language (Parser.primary expression))
    (apart : ∀ {text expr tokens rest}, Language expr tokens → Reads text tokens rest →
      ¬ Leads "not" text) :
    Parses bound [] (Negated Language) (Parser.unary expression) where
  sound := by
    intro text expr rest read
    obtain ⟨negations, mid, operand, repeated, parsed, rfl⟩ := unary_eq_ok.mp read
    clear read
    induction repeated with
    | stop _ =>
        obtain ⟨tokens, spelled, reads, stops⟩ := parses.sound parsed
        exact ⟨tokens, .operand spelled, reads, stops⟩
    | more found repeated ih =>
        obtain ⟨word, is, first⟩ := negation_eq_ok.mp found
        obtain ⟨tokens, negated, reads, stops⟩ := ih parsed
        exact ⟨.word word :: tokens, .not is negated, first.append reads, stops⟩
  complete := by
    intro text expr tokens rest negated short reads stops uncalled
    rw [unary_eq_ok]
    induction negated generalizing text with
    | operand spelled =>
        have passes := negation_passes.mpr (apart spelled reads)
        have parsed := parses.complete spelled short reads stops uncalled
        exact ⟨[], text, _, .stop passes, parsed, rfl⟩
    | not is negated ih =>
        rw [List.length_cons] at short
        obtain ⟨after, first, reads⟩ := Reads.cons_iff.mp reads
        obtain ⟨negations, mid, operand, repeated, parsed, rfl⟩ := ih (by omega) reads
        have found : Parser.negation text = .ok () after := negation_eq_ok.mpr ⟨_, is, first⟩
        exact ⟨() :: negations, mid, operand, .more found repeated, parsed, rfl⟩

theorem parenthesised_eq_ok {expression : Parser Expr} {text rest : List Char} {expr : Expr} :
    Parser.parenthesised expression (afterGap text) = .ok expr rest ↔ ∃ first last,
      Reads text [.opening] first ∧ expression first = .ok expr last ∧
      Reads last [.closing] rest := by
  simp only [Parser.parenthesised, Parser.bind_eq_ok, Parser.char_eq_ok, Parser.commit_eq_ok,
    Parser.pure_eq_ok, Parser.gap_bind, reads_opening, reads_closing]
  constructor
  · rintro ⟨_, first, found, expr, last, parsed, _, _, closed, rfl, rfl⟩
    exact ⟨first, last, found, parsed, closed⟩
  · rintro ⟨first, last, found, parsed, closed⟩
    exact ⟨(), first, found, expr, last, parsed, (), rest, closed, rfl, rfl⟩

theorem parenthesised_passes {expression : Parser Expr} {text : List Char}
    (other : ¬ Calls text) : (Parser.parenthesised expression).Passes (afterGap text) :=
  Parser.bind_passes.mpr (.inl (Parser.char_passes.mpr (not_exists.mp other)))

theorem arguments_eq_ok {expression : Parser Expr} {text rest : List Char} {exprs : List Expr} :
    Parser.arguments expression text = .ok exprs rest ↔ ∃ first mid others last,
      expression text = .ok first mid ∧
      Parser.many (do
        Parser.gap
        Parser.char ','
        Parser.commit expression) mid = .ok others last ∧
      Reads last [.closing] rest ∧ first :: others = exprs := by
  simp only [Parser.arguments, Parser.bind_eq_ok, Parser.char_eq_ok, Parser.commit_eq_ok,
    Parser.pure_eq_ok, Parser.gap_bind, reads_closing]
  constructor
  · rintro ⟨first, mid, parsed, others, last, repeated, _, _, closed, rfl, rfl⟩
    exact ⟨first, mid, others, last, parsed, repeated, closed, rfl⟩
  · rintro ⟨first, mid, others, last, parsed, repeated, closed, rfl⟩
    exact ⟨first, mid, parsed, others, last, repeated, (), rest, closed, rfl, rfl⟩

theorem call_eq_ok {expression : Parser Expr} {connective : Connective} {name text rest : List Char}
    {expr : Expr} :
    Parser.call expression connective name text = .ok expr rest ↔
      (¬ Calls text ∧ .reference (String.ofList name) = expr ∧ text = rest) ∨
      ∃ first exprs, Reads text [.opening] first ∧
        Parser.arguments expression first = .ok exprs rest ∧ .group connective exprs = expr := by
  rw [Parser.call]
  split
  next first found =>
    have calls : Calls text := ⟨first, found⟩
    simp only [Parser.commit_eq_ok, Parser.bind_eq_ok, Parser.pure_eq_ok, reads_opening, found]
    constructor
    · rintro ⟨exprs, _, parsed, rfl, rfl⟩
      exact .inr ⟨first, exprs, rfl, parsed, rfl⟩
    · rintro (⟨uncalled, _⟩ | ⟨_, exprs, ⟨⟩, parsed, rfl⟩)
      · exact absurd calls uncalled
      · exact ⟨exprs, rest, parsed, rfl, rfl⟩
  next other =>
    have uncalled : ¬ Calls text := fun ⟨first, found⟩ => other first found
    constructor
    · rintro ⟨⟩
      exact .inl ⟨uncalled, rfl, rfl⟩
    · rintro (⟨_, rfl, rfl⟩ | ⟨first, _, opened, _⟩)
      · rfl
      · exact absurd (reads_opening.mp opened) (other first)

def Names (expression : Parser Expr) (word : Word) (mid : List Char) (expr : Expr)
    (rest : List Char) : Prop :=
  (∃ allowed, word.Is (constantName allowed) ∧ .constant allowed = expr ∧ mid = rest) ∨
  (∃ connective, (connective = .chain ∨ connective = .race) ∧ word.Is connective.name ∧
    Parser.call expression connective word.text mid = .ok expr rest) ∨
  (∀ keyword ∈ ["allow", "deny", "chain", "race"], ¬ word.Is keyword) ∧
    .reference word.name = expr ∧ mid = rest

theorem named_eq_ok {expression : Parser Expr} {text rest : List Char} {expr : Expr} :
    Parser.named expression (afterGap text) = .ok expr rest ↔ ∃ word mid,
      ¬ isOperator word.text ∧ Reads text [.word word] mid ∧
      Names expression word mid expr rest := by
  simp only [Parser.named, Parser.bind_eq_ok, Parser.identifierSuch_eq_ok]
  constructor
  · rintro ⟨_, mid, ⟨word, rfl, plain, ends, begins⟩, chosen⟩
    refine ⟨word, mid, by simpa using plain, reads_word.mpr ⟨begins, ends⟩, ?_⟩
    split at chosen
    next is => exact .inl ⟨true, is, Parser.pure_eq_ok.mp chosen⟩
    next notAllow =>
    split at chosen
    next is => exact .inl ⟨false, is, Parser.pure_eq_ok.mp chosen⟩
    next notDeny =>
    split at chosen
    next is => exact .inr (.inl ⟨.chain, .inl rfl, is, chosen⟩)
    next notChain =>
    split at chosen
    next is => exact .inr (.inl ⟨.race, .inr rfl, is, chosen⟩)
    next notRace =>
      refine .inr (.inr ⟨?_, Parser.pure_eq_ok.mp chosen⟩)
      simp [Word.Is, notAllow, notDeny, notChain, notRace]
  · rintro ⟨word, mid, plain, reads, names⟩
    obtain ⟨begins, ends⟩ := reads_word.mp reads
    refine ⟨word.text, mid, ⟨word, rfl, by simpa using plain, ends, begins⟩, ?_⟩
    -- no word is two keywords, so the order in which they are tried does not matter
    have no {first : String} (is : word.Is first) (second : String)
        (distinct : first ∈ keywords ∧ second ∈ keywords ∧ first ≠ second) :
        ¬ isKeyword second word.text :=
      not_keyword is distinct.1 distinct.2.1 distinct.2.2
    rcases names with ⟨_ | _, is, rfl, rfl⟩ | ⟨_, rfl | rfl, is, called⟩ | ⟨none, rfl, rfl⟩
    · change word.Is "deny" at is
      rw [if_neg (no is "allow" (by decide)), if_pos is]
      rfl
    · change word.Is "allow" at is
      rw [if_pos is]
      rfl
    · change word.Is "chain" at is
      rwa [if_neg (no is "allow" (by decide)), if_neg (no is "deny" (by decide)), if_pos is]
    · change word.Is "race" at is
      rwa [if_neg (no is "allow" (by decide)), if_neg (no is "deny" (by decide)),
        if_neg (no is "chain" (by decide)), if_pos is]
    · simp only [List.forall_mem_cons] at none
      obtain ⟨notAllow, notDeny, notChain, notRace, _⟩ := none
      rw [if_neg notAllow, if_neg notDeny, if_neg notChain, if_neg notRace]
      rfl

theorem primary_eq_ok {expression : Parser Expr} {text rest : List Char} {expr : Expr} :
    Parser.primary expression text = .ok expr rest ↔
      Parser.parenthesised expression (afterGap text) = .ok expr rest ∨
      (Parser.parenthesised expression).Passes (afterGap text) ∧
        Parser.named expression (afterGap text) = .ok expr rest := by
  rw [Parser.primary, Parser.gap_bind, Parser.expecting_eq_ok, Parser.orElse_eq_ok]

theorem free_iff {word : Word} : (∀ keyword ∈ reserved, ¬ word.Is keyword) ↔
    ¬ isOperator word.text ∧ ¬ word.Is "allow" ∧ ¬ word.Is "deny" := by
  simp [reserved, isOperator, and_assoc]

theorem free_of_constant {word : Word} {allowed : Bool} (is : word.Is (constantName allowed)) :
    ¬ isOperator word.text := by
  have none : ∀ operator ∈ ["and", "or", "not"], ¬ word.Is operator := by
    cases allowed
    · exact word_apart is (by decide) (by decide)
    · exact word_apart is (by decide) (by decide)
  simp only [List.forall_mem_cons] at none
  simp [isOperator, none]

theorem free_of_call {word : Word} {connective : Connective}
    (calls : connective = .chain ∨ connective = .race) (is : word.Is connective.name) :
    ∀ keyword ∈ reserved, ¬ word.Is keyword := by
  rcases calls with rfl | rfl
  · exact word_apart is (by decide) (by decide)
  · exact word_apart is (by decide) (by decide)

theorem primary_begins {Language : Expr → List Token → Prop} {expr : Expr} {tokens : List Token}
    (primary : Primary Language expr tokens) :
    ∃ token later, tokens = token :: later ∧ ∀ word ∈ token.leading?, ¬ isOperator word.text := by
  cases primary with
  | constant is =>
      refine ⟨_, _, rfl, ?_⟩
      rintro _ ⟨⟩
      exact free_of_constant is
  | reference free =>
      refine ⟨_, _, rfl, ?_⟩
      rintro _ ⟨⟩
      exact (free_iff.mp free).1
  | parenthesised _ => exact ⟨_, _, rfl, by simp [Token.leading?]⟩
  | call calls is _ _ =>
      refine ⟨_, _, rfl, ?_⟩
      rintro _ ⟨⟩
      exact (free_iff.mp (free_of_call calls is)).1

theorem primary_not_leads {Language : Expr → List Token → Prop} {expr : Expr}
    {tokens : List Token} {text rest : List Char} (primary : Primary Language expr tokens)
    (reads : Reads text tokens rest) : ¬ Leads "not" text := by
  obtain ⟨token, later, rfl, free⟩ := primary_begins primary
  rw [reads.leads_iff]
  rintro ⟨word, leading, is⟩
  exact free word leading (by simp [isOperator, is])

theorem stops_nothing {rest : List Char} : Stops [] rest := by simp [Stops]

theorem mark_apart {token : Token} {barred : List String} {text rest : List Char}
    (reads : Reads text [token] rest) (mark : token.leading? = none) (other : token ≠ .opening) :
    Stops barred text ∧ ¬ Calls text :=
  ⟨by simp [Stops, reads.leads_iff, mark], fun calls => other (reads.calls_iff.mp calls)⟩

section

variable {bound : Nat} {barred : List String} {Language : Expr → List Token → Prop}
  {expression : Parser Expr}

theorem arguments_sound (parses : Parses bound barred Language expression)
    {text rest : List Char} {exprs : List Expr}
    (listed : Parser.arguments expression text = .ok exprs rest) :
    ∃ first others tokens later, first :: others = exprs ∧ Language first tokens ∧
      Further (· = .comma) Language others later ∧
      Reads text (tokens ++ later ++ [.closing]) rest := by
  have delimits := delimits_comma expression
  obtain ⟨first, mid, others, last, parsed, repeated, closed, rfl⟩ := arguments_eq_ok.mp listed
  obtain ⟨tokens, spelled, reads, stops⟩ := parses.sound parsed
  obtain ⟨later, further, left, _, _⟩ :=
    delimits.sound parses ((delimits.advances parses).many_eq_ok.mp repeated) stops
  exact ⟨first, others, tokens, later, rfl, spelled, further, (reads.append left).append closed⟩

theorem arguments_complete (parses : Parses bound barred Language expression)
    {text rest : List Char} {first : Expr} {others : List Expr} {tokens later : List Token}
    (spelled : Language first tokens) (further : Further (· = .comma) Language others later)
    (short : tokens.length + later.length < bound)
    (reads : Reads text (tokens ++ later ++ [.closing]) rest) :
    Parser.arguments expression text = .ok (first :: others) rest := by
  have delimits := delimits_comma expression
  obtain ⟨last, reads, closed⟩ := Reads.append_iff.mp reads
  obtain ⟨mid, reads, left⟩ := Reads.append_iff.mp reads
  have free {text : List Char} (opens : Opens (· = .comma) text) :
      Stops barred text ∧ ¬ Calls text := by
    obtain ⟨_, after, rfl, reads⟩ := opens
    exact mark_apart reads rfl (by simp)
  have ended : ¬ Opens (· = .comma) last := by
    rw [opens_comma, reads_closing.mp closed]
    simp
  have stopped : Stops barred last ∧ ¬ Calls last := mark_apart closed rfl (by simp)
  obtain ⟨stops, unopened⟩ := further.free free left stopped
  have parsed := parses.complete spelled (by omega) reads stops unopened
  have repeated := delimits.complete parses free further (by omega) left stopped ended
  exact arguments_eq_ok.mpr ⟨first, mid, others, last, parsed,
    (delimits.advances parses).many_eq_ok.mpr repeated, closed, rfl⟩

theorem named_sound (parses : Parses bound barred Language expression) {text rest : List Char}
    {expr : Expr} (named : Parser.named expression (afterGap text) = .ok expr rest) :
    ∃ tokens, Primary Language expr tokens ∧ Reads text tokens rest := by
  obtain ⟨word, mid, plain, reads, names⟩ := named_eq_ok.mp named
  rcases names with ⟨allowed, is, rfl, rfl⟩ | ⟨connective, calls, is, called⟩ | ⟨none, rfl, rfl⟩
  · exact ⟨_, .constant is, reads⟩
  · rcases call_eq_ok.mp called with ⟨_, rfl, rfl⟩ | ⟨first, exprs, opened, listed, rfl⟩
    · exact ⟨_, .reference (free_of_call calls is), reads⟩
    · obtain ⟨expr, others, tokens, later, rfl, spelled, further, operands⟩ :=
        arguments_sound parses listed
      refine ⟨_, .call calls is spelled further, ?_⟩
      simpa only [List.append_assoc, List.cons_append, List.nil_append] using
        (reads.append opened).append operands
  · simp only [List.forall_mem_cons] at none
    exact ⟨_, .reference (free_iff.mpr ⟨plain, none.1, none.2.1⟩), reads⟩

theorem reference_complete {word : Word} (free : ∀ keyword ∈ reserved, ¬ word.Is keyword)
    {text rest : List Char} (reads : Reads text [.word word] rest) (uncalled : ¬ Calls rest) :
    Parser.named expression (afterGap text) = .ok (.reference word.name) rest := by
  obtain ⟨plain, notAllow, notDeny⟩ := free_iff.mp free
  refine named_eq_ok.mpr ⟨word, rest, plain, reads, ?_⟩
  have uncalling (connective : Connective) :
      Parser.call expression connective word.text rest = .ok (.reference word.name) rest :=
    call_eq_ok.mpr (.inl ⟨uncalled, rfl, rfl⟩)
  by_cases chain : word.Is "chain"
  · exact .inr (.inl ⟨.chain, .inl rfl, chain, uncalling .chain⟩)
  by_cases race : word.Is "race"
  · exact .inr (.inl ⟨.race, .inr rfl, race, uncalling .race⟩)
  exact .inr (.inr ⟨by simp_all, rfl, rfl⟩)

theorem primary_parses (parses : Parses bound barred Language expression) :
    Parses (bound + 1) [] (Primary Language) (Parser.primary expression) where
  sound := by
    intro text expr rest read
    rcases primary_eq_ok.mp read with grouped | ⟨_, named⟩
    · obtain ⟨first, last, opened, parsed, closed⟩ := parenthesised_eq_ok.mp grouped
      obtain ⟨tokens, spelled, reads, _⟩ := parses.sound parsed
      exact ⟨_, .parenthesised spelled, (opened.append reads).append closed, stops_nothing⟩
    · obtain ⟨tokens, primary, reads⟩ := named_sound parses named
      exact ⟨tokens, primary, reads, stops_nothing⟩
  complete := by
    intro text expr tokens rest primary short reads _ uncalled
    have passes (word : Word) (later : List Token) (reads : Reads text (.word word :: later) rest) :
        (Parser.parenthesised expression).Passes (afterGap text) :=
      parenthesised_passes fun calls => nomatch reads.calls_iff.mp calls
    rw [primary_eq_ok]
    cases primary with
    | @constant allowed word is =>
        refine .inr ⟨passes word [] reads, named_eq_ok.mpr ⟨word, rest, ?_, reads, ?_⟩⟩
        · exact free_of_constant is
        · exact .inl ⟨allowed, is, rfl, rfl⟩
    | @reference word free =>
        exact .inr ⟨passes word [] reads, reference_complete free reads uncalled⟩
    | parenthesised spelled =>
        simp only [List.length_append, List.length_cons] at short
        obtain ⟨last, reads, closed⟩ := Reads.append_iff.mp reads
        obtain ⟨first, opened, reads⟩ := Reads.cons_iff.mp reads
        obtain ⟨stops, unopened⟩ := mark_apart closed rfl (by simp)
        have parsed := parses.complete spelled (by omega) reads stops unopened
        exact .inl (parenthesised_eq_ok.mpr ⟨first, last, opened, parsed, closed⟩)
    | @call connective word first others tokens later calls is spelled further =>
        simp only [List.length_append, List.length_cons] at short
        refine .inr ⟨passes word _ reads, ?_⟩
        simp only [List.cons_append] at reads
        obtain ⟨mid, named, reads⟩ := Reads.cons_iff.mp reads
        obtain ⟨start, opened, reads⟩ := Reads.cons_iff.mp reads
        have listed := arguments_complete parses spelled further (by omega) reads
        have called : Parser.call expression connective word.text mid =
            .ok (.group connective (first :: others)) rest :=
          call_eq_ok.mpr (.inr ⟨start, first :: others, opened, listed, rfl⟩)
        have plain := (free_iff.mp (free_of_call calls is)).1
        exact named_eq_ok.mpr ⟨word, mid, plain, named, .inr (.inl ⟨_, calls, is, called⟩)⟩

theorem conjunction_parses (parses : Parses bound barred Language expression) :
    Parses (bound + 1) [Connective.and.name] (Joined .and (Negated (Primary Language)))
      (Parser.separated .and (Parser.unary expression)) :=
  separated_parses (unary_parses (primary_parses parses) primary_not_leads) (by simp)

end

theorem expressionWithin_parses (depth : Nat) :
    Parses depth ["or", "and"] Expr.Spelled (Parser.expressionWithin depth) := by
  induction depth with
  | zero =>
      constructor
      · intro text expr rest read
        simp [Parser.expressionWithin, Parser.fail] at read
      · intro _ _ _ _ _ short
        exact absurd short (Nat.not_lt_zero _)
  | succ depth ih =>
      -- a primary holds whole expressions only between brackets, so these have fewer tokens
      have whole : Parses (depth + 1) [Connective.or.name, Connective.and.name] (Joined .or _) _ :=
        separated_parses (conjunction_parses ih) <| by
          intro name is keyword member
          obtain rfl := List.mem_singleton.mp member
          exact not_keyword is (by decide) (by decide) (by decide)
      constructor
      · intro text expr rest read
        obtain ⟨tokens, spelled, reads, stops⟩ := whole.sound read
        exact ⟨tokens, .intro spelled, reads, stops⟩
      · rintro text expr tokens rest ⟨spelled⟩ short reads stops uncalled
        exact whole.complete spelled short reads stops uncalled

theorem expression_sound {text rest : List Char} {expr : Expr}
    (parsed : Parser.expression text = .ok expr rest) :
    ∃ tokens, expr.Spelled tokens ∧ Reads text tokens rest ∧ Stops ["or", "and"] rest :=
  (expressionWithin_parses _).sound parsed

theorem expression_complete {text rest : List Char} {expr : Expr} {tokens : List Token}
    (spelled : expr.Spelled tokens) (reads : Reads text tokens rest)
    (stops : Stops ["or", "and"] rest) (uncalled : ¬ Calls rest) :
    Parser.expression text = .ok expr rest := by
  have short := reads.length_le
  exact (expressionWithin_parses _).complete spelled (by omega) reads stops uncalled

end FieldGuard.Policy
