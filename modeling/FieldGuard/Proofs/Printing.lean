import FieldGuard.Proofs.Programs
import FieldGuard.Proofs.Writing

set_option autoImplicit false

namespace FieldGuard

def Connective.fewest : Connective → Nat
  | .and | .or => 2
  | .chain | .race => 1

namespace Policy

/-! ### Expressions that texts hold -/

inductive Expr.Printable : Expr → Prop
  | reference {word : Word} : (∀ keyword ∈ reserved, ¬ word.Is keyword) →
      Printable (.reference word.name)
  | constant {allowed : Bool} : Printable (.constant allowed)
  | not {operand : Expr} : Printable operand → Printable (.not operand)
  | group {connective : Connective} {operands : List Expr} :
      connective.fewest ≤ operands.length → (∀ operand ∈ operands, Printable operand) →
        Printable (.group connective operands)

section

variable {Language : Expr → List Token → Prop} {expr : Expr} {tokens : List Token}
  (known : ∀ {expr tokens}, Language expr tokens → expr.Printable)

include known

theorem Further.printable {separator : Token → Prop} {exprs : List Expr}
    (further : Further separator Language exprs tokens) : ∀ expr ∈ exprs, expr.Printable := by
  induction further with
  | none => exact nofun
  | one _ spelled _ ih => exact List.forall_mem_cons.mpr ⟨known spelled, ih⟩

theorem Joined.printable {connective : Connective} (joined : Joined connective Language expr tokens)
    (few : connective.fewest ≤ 2) : expr.Printable := by
  cases joined with
  | single spelled => exact known spelled
  | group spelled several further =>
    have := List.length_pos_iff.mpr several
    apply Expr.Printable.group
    · rw [List.length_cons]
      omega
    · exact List.forall_mem_cons.mpr ⟨known spelled, further.printable known⟩

theorem Negated.printable (negated : Negated Language expr tokens) : expr.Printable := by
  induction negated with
  | operand spelled => exact known spelled
  | not _ _ ih => exact .not ih

theorem Primary.printable (primary : Primary Language expr tokens) : expr.Printable := by
  cases primary with
  | constant _ => exact .constant
  | reference free => exact .reference free
  | parenthesised spelled => exact known spelled
  | call calls _ spelled further =>
    apply Expr.Printable.group
    · rcases calls with rfl | rfl <;> exact Nat.le_add_left 1 _
    · exact List.forall_mem_cons.mpr ⟨known spelled, further.printable known⟩

end

theorem Expr.Spelled.printable {expr : Expr} {tokens : List Token} (spelled : expr.Spelled tokens) :
    expr.Printable := by
  apply spelled.induct
  intro expr tokens disjunction
  refine disjunction.printable (fun conjunction => ?_) (by decide)
  refine conjunction.printable (fun negated => ?_) (by decide)
  exact negated.printable fun primary => primary.printable id

/-! ### Printed texts as tokens -/

theorem intercalate_cons (between first : List Char) (others : List (List Char)) :
    between.intercalate (first :: others) = first ++ others.flatMap fun text => between ++ text := by
  induction others generalizing first with
  | nil => simp [List.intercalate, List.intersperse]
  | cons second others ih =>
    have later := ih second
    simp only [List.intercalate, List.intersperse, List.flatten_cons, List.flatMap_cons] at later ⊢
    rw [later, List.append_assoc]

namespace Expr

theorem displays_toList (exprs : List Expr) :
    (displays exprs).map String.toList = exprs.map fun expr => expr.display.toList := by
  induction exprs with
  | nil => rfl
  | cons expr rest ih => rw [displays, List.map_cons, List.map_cons, ih]

theorem display_group (connective : Connective) (first : Expr) (others : List Expr) :
    (Expr.group connective (first :: others)).display.toList =
      (delimiters connective).1.toList ++ (first.display.toList ++
        others.flatMap fun other => (delimiters connective).2.1.toList ++ other.display.toList) ++
        (delimiters connective).2.2.toList := by
  rw [display]
  simp only [String.toList_append, String.toList_intercalate, displays_toList, List.map_cons,
    intercalate_cons, List.flatMap_map]

def Prints (expr : Expr) : Prop :=
  ∃ tokens, Primary Spelled expr tokens ∧ Writes expr.display.toList tokens

end Expr

theorem Primary.ne_nil {Language : Expr → List Token → Prop} {expr : Expr} {tokens : List Token}
    (primary : Primary Language expr tokens) : tokens ≠ [] := by
  obtain ⟨token, later, rfl, _⟩ := primary_begins primary
  exact List.cons_ne_nil token later

structure Joins (separator : Token → Prop) (between : List Char) : Prop where
  separates : ∀ characters, Separates (between ++ characters)
  writes : ∀ {characters tokens}, tokens ≠ [] → Writes characters tokens →
    ∃ token, separator token ∧ Writes (between ++ characters) (token :: tokens)

theorem joins_keyword {keyword : String} (member : keyword ∈ keywords) :
    Joins (Token.Is keyword) (' ' :: keyword.toList.map Char.toUpper ++ [' ']) where
  separates _ := separates_cons (by decide)
  writes := by
    intro characters tokens some writes
    obtain ⟨word, is, text⟩ := exists_capital member
    have spaced := (Token.word word).writes.append (writes.space some) (separates_cons (by decide))
    refine ⟨.word word, is, ?_⟩
    simpa [Token.text, text] using spaced.space (List.cons_ne_nil _ _)

theorem joins_comma : Joins (· = .comma) [',', ' '] where
  separates _ := separates_cons (by decide)
  writes some writes := ⟨.comma, rfl, (writes.space some).mark .comma id⟩

section

variable {separator : Token → Prop} {between : List Char} {Language : Expr → List Token → Prop}
  {first : Expr} {others : List Expr}

theorem further_prints (joins : Joins separator between)
    (lift : ∀ {expr tokens}, Primary Expr.Spelled expr tokens → Language expr tokens)
    (each : ∀ other ∈ others, other.Prints) :
    ∃ tokens, Further separator Language others tokens ∧
      Writes (others.flatMap fun other => between ++ other.display.toList) tokens ∧
      Separates (others.flatMap fun other => between ++ other.display.toList) := by
  induction others with
  | nil => exact ⟨[], .none, fun _ _ => rfl, fun _ ends => ends⟩
  | cons other others ih =>
    obtain ⟨⟨tokens, primary, writes⟩, rest⟩ := List.forall_mem_cons.mp each
    obtain ⟨later, further, follows, separates⟩ := ih rest
    obtain ⟨token, separated, joined⟩ := joins.writes primary.ne_nil writes
    refine ⟨token :: tokens ++ later, .one separated (lift primary) further, ?_, ?_⟩
    · exact joined.append follows separates
    · rw [List.flatMap_cons, List.append_assoc]
      exact joins.separates _

theorem operands_print (joins : Joins separator between)
    (lift : ∀ {expr tokens}, Primary Expr.Spelled expr tokens → Language expr tokens)
    (one : first.Prints) (each : ∀ other ∈ others, other.Prints) :
    ∃ tokens later, Language first tokens ∧ Further separator Language others later ∧
      Writes (first.display.toList ++
        others.flatMap fun other => between ++ other.display.toList) (tokens ++ later) := by
  obtain ⟨tokens, primary, writes⟩ := one
  obtain ⟨later, further, follows, separates⟩ := further_prints joins lift each
  exact ⟨tokens, later, lift primary, further, writes.append follows separates⟩

end

theorem Writes.closed {characters : List Char} {tokens : List Token}
    (writes : Writes characters tokens) : Writes (characters ++ [')']) (tokens ++ [.closing]) :=
  writes.append Token.closing.writes (separates_cons (by decide))

theorem Writes.bracketed {characters : List Char} {tokens : List Token}
    (writes : Writes characters tokens) :
    Writes ('(' :: characters ++ [')']) (.opening :: tokens ++ [.closing]) :=
  Writes.closed (writes.mark .opening id)

namespace Expr

variable {first : Expr} {others : List Expr}

theorem infix_prints {connective : Connective} {Language : Expr → List Token → Prop}
    (member : connective.name ∈ keywords)
    (delimited : (delimiters connective).1.toList = ['('] ∧
      (delimiters connective).2.1.toList = ' ' :: connective.name.toList.map Char.toUpper ++ [' '] ∧
      (delimiters connective).2.2.toList = [')'])
    (lift : ∀ {expr tokens}, Primary Spelled expr tokens → Language expr tokens)
    (whole : ∀ {expr tokens}, Joined connective Language expr tokens → Spelled expr tokens)
    (several : others ≠ []) (one : first.Prints) (each : ∀ other ∈ others, other.Prints) :
    (Expr.group connective (first :: others)).Prints := by
  -- its brackets make it a primary, whatever stands around it
  obtain ⟨tokens, later, spelled, further, writes⟩ :=
    operands_print (joins_keyword member) lift one each
  refine ⟨_, .parenthesised (whole (.group spelled several further)), ?_⟩
  rw [display_group, delimited.1, delimited.2.1, delimited.2.2]
  exact writes.bracketed

theorem call_prints {connective : Connective} (calls : connective = .chain ∨ connective = .race)
    (one : first.Prints) (each : ∀ other ∈ others, other.Prints) :
    (Expr.group connective (first :: others)).Prints := by
  have member : connective.name ∈ keywords := by rcases calls with rfl | rfl <;> decide
  have delimited : (delimiters connective).1.toList = connective.name.toList ++ ['('] ∧
      (delimiters connective).2.1.toList = [',', ' '] ∧
      (delimiters connective).2.2.toList = [')'] := by
    rcases calls with rfl | rfl <;> decide
  obtain ⟨word, is, text⟩ := exists_keyword member
  obtain ⟨tokens, later, spelled, further, writes⟩ :=
    operands_print joins_comma spelled_of_primary one each
  refine ⟨_, .call calls is spelled further, ?_⟩
  rw [display_group, delimited.1, delimited.2.1, delimited.2.2, ← text]
  have named := (Token.word word).writes.append writes.bracketed (separates_cons (by decide))
  simpa [Token.text] using named

theorem Printable.prints {expr : Expr} (printable : expr.Printable) : expr.Prints := by
  induction printable with
  | @reference word free =>
    refine ⟨_, .reference free, ?_⟩
    simpa [display, Word.name, Token.text] using (Token.word word).writes
  | @constant allowed =>
    have member : constantName allowed ∈ keywords := by cases allowed <;> decide
    obtain ⟨word, is, text⟩ := exists_keyword member
    refine ⟨_, .constant is, ?_⟩
    simpa [display, ← text, Token.text] using (Token.word word).writes
  | @not operand _ ih =>
    obtain ⟨tokens, primary, writes⟩ := ih
    obtain ⟨word, is, text⟩ := exists_capital (by decide : "not" ∈ keywords)
    have negated := Negated.not is (.operand primary)
    refine ⟨_, .parenthesised (.intro (.single (.single negated))), ?_⟩
    have written := (Token.word word).writes.append (writes.space primary.ne_nil)
      (separates_cons (by decide))
    simpa [display, Token.text, text] using written.bracketed
  | @group connective operands enough _ ih =>
    cases operands with
    | nil => cases connective <;> simp [Connective.fewest] at enough
    | cons first others =>
      obtain ⟨one, each⟩ := List.forall_mem_cons.mp ih
      have several (two : connective.fewest = 2) : others ≠ [] := by
        rintro rfl
        simp [two] at enough
      cases connective with
      | and =>
        exact infix_prints (by decide) (by decide) .operand
          (fun joined => .intro (.single joined)) (several rfl) one each
      | or =>
        exact infix_prints (by decide) (by decide) (fun primary => .single (.operand primary))
          .intro (several rfl) one each
      | chain => exact call_prints (.inl rfl) one each
      | race => exact call_prints (.inr rfl) one each

end Expr

/-! ### Statements on one line -/

theorem target_display (parentType : Word) (field : Option Word) :
    (parentType.target field).display.toList = (Token.head parentType field).text := by
  cases field <;> simp [Word.target, Target.display, Word.name, Token.text]

theorem statement_prints {target : Target} {expr other : Expr} {tokens : List Token}
    (spelled : Statement.Spelled (.rule target expr) tokens) (printable : other.Printable) :
    ∃ printed, Statement.Spelled (.rule target other) printed ∧
      Writes (target.display.toList ++ ':' :: ' ' :: other.display.toList) printed := by
  obtain ⟨body, primary, writes⟩ := printable.prints
  have whole := spelled_of_primary primary
  have follows : Writes (':' :: ' ' :: other.display.toList) (.colon :: body) :=
    (writes.space primary.ne_nil).mark .colon id
  have separates : Separates (':' :: ' ' :: other.display.toList) := separates_cons (by decide)
  cases spelled with
  | fallback _ _ =>
    obtain ⟨word, is, text⟩ := exists_keyword (by decide : "fallback" ∈ keywords)
    refine ⟨_, .fallback is whole, ?_⟩
    simpa [Target.display, Token.text, text] using (Token.word word).writes.append follows separates
  | @head parentType field _ _ distinct _ =>
    refine ⟨_, .head distinct whole, ?_⟩
    rw [target_display]
    exact (Token.head parentType field).writes.append follows separates

theorem parse_printable {text : String} {document : Document} (parsed : parse text = .ok document)
    {target : Target} {expr : Expr} (member : (target, expr) ∈ document.rules) : expr.Printable := by
  obtain ⟨_, spelled⟩ := parse_spelled parsed member
  cases spelled with
  | fallback _ spelled => exact spelled.printable
  | head _ spelled => exact spelled.printable

/-- A target of a policy text and an expression make a line that is parsed as that one statement,
exactly where the expression is such as texts hold. -/
theorem parse_display_iff {text : String} {document : Document} (parsed : parse text = .ok document)
    {target : Target} {expr : Expr} (member : (target, expr) ∈ document.rules) :
    parse (target.display ++ ": " ++ expr.display) = .ok ⟨[], [(target, expr)]⟩ ∧
      ∀ other : Expr,
        parse (target.display ++ ": " ++ other.display) = .ok ⟨[], [(target, other)]⟩ ↔
          other.Printable := by
  obtain ⟨tokens, spelled⟩ := parse_spelled parsed member
  have back (other : Expr) (printable : other.Printable) :
      parse (target.display ++ ": " ++ other.display) = .ok ⟨[], [(target, other)]⟩ := by
    obtain ⟨printed, stated, writes⟩ := statement_prints spelled printable
    have alone : Separate [] := by simp [Separate]
    have program : Program [.rule target other] printed := by
      simpa using Program.rule stated alone .nil
    refine parse_program program (layout_iff_reads.mpr ⟨[], ?_, afterGap_nil⟩)
    simpa using writes [] ends_nil
  refine ⟨back expr (parse_printable parsed member), fun other => ⟨?_, back other⟩⟩
  intro held
  exact parse_printable held (List.mem_singleton.mpr rfl)

theorem parse_display_iff_nested : ∃ expr,
    parse "fallback.*: race (chain or (a and not b)) and Not\n" =
      .ok ⟨[], [(.type "fallback", expr)]⟩ ∧
    parse "fallback.*: (race((chain OR (a AND (NOT b)))) AND Not)" =
      .ok ⟨[], [(.type "fallback", expr)]⟩ := by
  let expr : Expr := .group .and [.group .race [.group .or [.reference "chain",
    .group .and [.reference "a", .not (.reference "b")]]], .reference "Not"]
  have parsed : parse "fallback.*: race (chain or (a and not b)) and Not\n" =
      .ok ⟨[], [(.type "fallback", expr)]⟩ := by with_unfolding_all rfl
  exact ⟨expr, parsed, (parse_display_iff parsed (List.mem_singleton.mpr rfl)).1⟩

end Policy

end FieldGuard
