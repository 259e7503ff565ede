import FieldGuard.Policy.Parser

set_option autoImplicit false

namespace FieldGuard.Policy

structure Word where
  initial : Char
  others : List Char
  initial_allowed : isInitial initial
  others_allowed : ∀ c ∈ others, isSubsequent c

namespace Word

def text (word : Word) : List Char := word.initial :: word.others

def name (word : Word) : String := String.ofList word.text

abbrev Is (word : Word) (keyword : String) : Prop := isKeyword keyword word.text

end Word

/-- What may come right after a word. -/
def Ends (rest : List Char) : Prop := ∀ c ∈ rest.head?, ¬ isSubsequent c

theorem ends_nil : Ends [] := by simp [Ends]

theorem ends_cons {c : Char} {rest : List Char} (other : ¬ isSubsequent c) : Ends (c :: rest) := by
  rintro d ⟨⟩
  exact other

theorem Ends.congr {gone rest other : List Char} (ends : Ends (gone ++ rest))
    (keeps : Ends rest → Ends other) : Ends (gone ++ other) := by
  cases gone with
  | nil => exact keeps ends
  | cons c gone => exact ends

inductive Token where
  | word (name : Word)
  | head (parentType : Word) (field : Option Word)
  | opening
  | closing
  | comma
  | colon

namespace Token

def text : Token → List Char
  | .word name => name.text
  | .head parentType (some field) => parentType.text ++ '.' :: field.text
  | .head parentType none => parentType.text ++ ['.', '*']
  | .opening => ['(']
  | .closing => [')']
  | .comma => [',']
  | .colon => [':']

def EndsInWord : Token → Prop
  | .word _ | .head _ (some _) => True
  | _ => False

def leading? : Token → Option Word
  | .word name | .head name _ => some name
  | _ => none

end Token

def InLine (body : List Char) : Prop := ∀ c ∈ body, c ≠ '\n' ∧ c ≠ '\r'

inductive Gap : List Char → Prop
  | empty : Gap []
  | space {c : Char} {gap : List Char} : isSpace c → Gap gap → Gap (c :: gap)
  | comment {body ending gap : List Char} :
      InLine body → ending = ['\n'] ∨ ending = ['\r', '\n'] → Gap gap →
        Gap ('#' :: body ++ ending ++ gap)

/-- The last gap of a text, where a comment needs no end. -/
inductive LastGap : List Char → Prop
  | gap {gap : List Char} : Gap gap → LastGap gap
  | comment {gap body : List Char} : Gap gap → InLine body → LastGap (gap ++ '#' :: body)

inductive Layout : List Token → List Char → Prop
  | done {gap : List Char} : LastGap gap → Layout [] gap
  | token {token : Token} {tokens : List Token} {gap rest : List Char} :
      Gap gap → (token.EndsInWord → Ends rest) → Layout tokens rest →
        Layout (token :: tokens) (gap ++ token.text ++ rest)

/-! ### Gaps as the parser skips them -/

theorem afterComment_append {body rest : List Char} (inLine : InLine body) :
    afterComment (body ++ rest) = afterComment rest := by
  induction body with
  | nil => rfl
  | cons c body ih =>
      have other := inLine c (by simp)
      have later : InLine body := fun d member => inLine d (by simp [member])
      rw [List.cons_append, afterComment]
      · exact ih later
      all_goals grind

theorem afterComment_eq_some {text rest : List Char} (found : afterComment text = some rest) :
    ∃ body, InLine body ∧ text = body ++ rest ∧
      (rest = [] ∨ (∃ later, rest = '\n' :: later) ∨ ∃ later, rest = '\r' :: '\n' :: later) := by
  fun_induction afterComment text with
  | case1 => exact ⟨[], by simp [InLine], by simp_all, by simp_all⟩
  | case2 later =>
      cases found
      exact ⟨[], by simp [InLine], rfl, .inr (.inl ⟨later, rfl⟩)⟩
  | case3 later =>
      cases found
      exact ⟨[], by simp [InLine], rfl, .inr (.inr ⟨later, rfl⟩)⟩
  | case4 => simp at found
  | case5 c later notLine notReturn notOther ih =>
      obtain ⟨body, inLine, split, ending⟩ := ih found
      refine ⟨c :: body, ?_, by rw [split, List.cons_append], ending⟩
      intro d member
      rcases List.mem_cons.mp member with rfl | member
      · grind
      · exact inLine d member

theorem afterGap_space {c : Char} {rest : List Char} (space : isSpace c) :
    afterGap (c :: rest) = afterGap rest := by
  rw [afterGap, if_pos space]

theorem afterGap_comment {rest later : List Char} (found : afterComment rest = some later) :
    afterGap ('#' :: rest) = afterGap later := by
  rw [afterGap, if_neg (by decide), if_pos rfl]
  split
  · simp_all
  · simp_all

theorem afterGap_nil : afterGap [] = [] := by rw [afterGap]

theorem Gap.skipped {gap : List Char} (blank : Gap gap) (rest : List Char) :
    afterGap (gap ++ rest) = afterGap rest := by
  induction blank with
  | empty => rfl
  | space isSpace _ ih => rw [List.cons_append, afterGap_space isSpace, ih]
  | @comment body ending gap inLine ended _ ih =>
      have skip : afterComment (body ++ (ending ++ (gap ++ rest))) =
          some (ending ++ (gap ++ rest)) := by
        rw [afterComment_append inLine]
        rcases ended with rfl | rfl <;> rfl
      have passed : afterGap (ending ++ (gap ++ rest)) = afterGap (gap ++ rest) := by
        rcases ended with rfl | rfl
        · exact afterGap_space rfl
        · rw [List.cons_append, afterGap_space rfl]
          exact afterGap_space rfl
      simp only [List.append_assoc, List.cons_append]
      rw [afterGap_comment skip, passed, ih]

theorem LastGap.skipped {gap : List Char} (blank : LastGap gap) : afterGap gap = [] := by
  cases blank with
  | gap blank => simpa [afterGap_nil] using blank.skipped []
  | @comment _ body blank inLine =>
      have skip : afterComment body = some [] := by
        rw [← body.append_nil, afterComment_append inLine, afterComment]
      rw [blank.skipped, afterGap_comment skip, afterGap_nil]

theorem Gap.append {first second : List Char} (blank : Gap first) (also : Gap second) :
    Gap (first ++ second) := by
  induction blank with
  | empty => exact also
  | space isSpace _ ih => exact .space isSpace ih
  | comment inLine ended _ ih => simpa only [List.append_assoc] using ih.comment inLine ended

theorem LastGap.line {gap : List Char} (last : LastGap gap) : Gap (gap ++ ['\n']) := by
  cases last with
  | gap blank => exact blank.append (.space rfl .empty)
  | comment blank inLine => simpa using blank.append (.comment inLine (.inl rfl) .empty)

def Skips (text rest : List Char) : Prop :=
  (∃ gap, Gap gap ∧ text = gap ++ rest) ∨ LastGap text ∧ rest = []

theorem Gap.skips {gap text rest : List Char} (blank : Gap gap) (skips : Skips text rest) :
    Skips (gap ++ text) rest := by
  rcases skips with ⟨later, also, rfl⟩ | ⟨last, rfl⟩
  · exact .inl ⟨gap ++ later, blank.append also, by rw [List.append_assoc]⟩
  · refine .inr ⟨?_, rfl⟩
    cases last with
    | gap also => exact .gap (blank.append also)
    | comment also inLine =>
        rw [← List.append_assoc]
        exact .comment (blank.append also) inLine

theorem Skips.refl (text : List Char) : Skips text text := .inl ⟨[], .empty, rfl⟩

theorem Skips.line {text rest : List Char} (skips : Skips text rest) :
    ∃ gap, Gap (gap ++ ['\n']) ∧ text = gap ++ rest := by
  -- the line end closes a last comment too
  rcases skips with ⟨gap, blank, split⟩ | ⟨last, rfl⟩
  · exact ⟨gap, blank.append (.space rfl .empty), split⟩
  · exact ⟨text, last.line, text.append_nil.symm⟩

theorem afterGap_unbroken {rest : List Char} (lost : afterComment rest = none) :
    afterGap ('#' :: rest) = '#' :: rest := by
  rw [afterGap, if_neg (by decide), if_pos rfl]
  split
  · simp_all
  · rfl

theorem afterGap_mark {c : Char} {rest : List Char} (notSpace : ¬ isSpace c) (other : c ≠ '#') :
    afterGap (c :: rest) = c :: rest := by
  rw [afterGap, if_neg notSpace, if_neg other]

theorem afterGap_skips (text : List Char) : Skips text (afterGap text) := by
  match text with
  | [] =>
      rw [afterGap_nil]
      exact .refl []
  | c :: rest =>
      by_cases space : isSpace c
      · rw [afterGap_space space]
        exact (Gap.space space .empty).skips (afterGap_skips rest)
      by_cases comment : c = '#'
      · subst comment
        cases found : afterComment rest with
        | none =>
            rw [afterGap_unbroken found]
            exact .refl _
        | some later =>
            rw [afterGap_comment found]
            obtain ⟨body, inLine, rfl, rfl | ⟨later, rfl⟩ | ⟨later, rfl⟩⟩ :=
              afterComment_eq_some found
            · refine .inr ⟨?_, afterGap_nil⟩
              simpa using LastGap.comment .empty inLine
            · have line := Gap.comment inLine (.inl rfl) .empty
              rw [afterGap_space rfl]
              simpa using line.skips (afterGap_skips later)
            · have line := Gap.comment inLine (.inr rfl) .empty
              rw [afterGap_space rfl, afterGap_space rfl]
              simpa using line.skips (afterGap_skips later)
      · rw [afterGap_mark space comment]
        exact .refl _
termination_by text.length

/-! ### Words as the parser finds them -/

theorem Word.identifierOf_text (word : Word) {rest : List Char} (ends : Ends rest) :
    identifierOf (word.text ++ rest) = some (word.text, rest) := by
  have stops : rest.takeWhile isSubsequent = [] ∧ rest.dropWhile isSubsequent = rest := by
    cases rest with
    | nil => simp
    | cons c rest => simp [ends c rfl]
  rw [Word.text, List.cons_append, identifierOf, if_pos word.initial_allowed,
    List.takeWhile_append_of_pos word.others_allowed,
    List.dropWhile_append_of_pos word.others_allowed, stops.1, stops.2, List.append_nil]

theorem identifierOf_eq_some {text name rest : List Char}
    (found : identifierOf text = some (name, rest)) :
    ∃ word : Word, word.text = name ∧ Ends rest ∧ text = name ++ rest := by
  cases text with
  | nil => simp [identifierOf] at found
  | cons c later =>
      rw [identifierOf] at found
      split at found
      next initial =>
        cases found
        refine ⟨⟨c, later.takeWhile isSubsequent, initial, ?_⟩, rfl, ?_, ?_⟩
        · exact fun d member => List.all_eq_true.mp List.all_takeWhile d member
        · have stop := List.head?_dropWhile_not isSubsequent later
          intro d first
          rw [Option.mem_def.mp first] at stop
          simp [stop]
        · simp
      next => simp at found

/-! ### Reading tokens one by one -/

def Reads : List Char → List Token → List Char → Prop
  | text, [], rest => text = rest
  | text, token :: tokens, rest => ∃ mid, afterGap text = token.text ++ mid ∧
      (token.EndsInWord → Ends mid) ∧ Reads mid tokens rest

theorem isInitial_mark {c : Char} (initial : isInitial c) : ¬ isSpace c ∧ c ≠ '#' := by
  constructor
  · intro space
    simp only [isSpace, Bool.or_eq_true, beq_iff_eq] at space
    rcases space with (((rfl | rfl) | rfl) | rfl) | rfl <;> simp [isInitial] at initial
  · rintro rfl
    simp [isInitial] at initial

theorem Token.afterGap_text (token : Token) (rest : List Char) :
    afterGap (token.text ++ rest) = token.text ++ rest := by
  have word (name : Word) (later : List Char) :
      afterGap (name.text ++ later) = name.text ++ later :=
    afterGap_mark (isInitial_mark name.initial_allowed).1 (isInitial_mark name.initial_allowed).2
  cases token with
  | word name => exact word name rest
  | head parentType field => cases field <;> simp [Token.text, word]
  | opening | closing | comma | colon => exact afterGap_mark (by decide) (by decide)

theorem Token.text_ne_nil (token : Token) : token.text ≠ [] := by
  cases token with
  | head _ field => cases field <;> simp [Token.text, Word.text]
  | _ => simp [Token.text, Word.text]

theorem afterGap_length (text : List Char) : (afterGap text).length ≤ text.length := by
  rcases afterGap_skips text with ⟨gap, _, split⟩ | ⟨_, empty⟩
  · have := congrArg List.length split
    rw [List.length_append] at this
    omega
  · simp [empty]

theorem layout_nil {text : List Char} : Layout [] text ↔ afterGap text = [] := by
  constructor
  · rintro ⟨last⟩
    exact last.skipped
  · intro empty
    rcases afterGap_skips text with ⟨gap, blank, split⟩ | ⟨last, _⟩
    · rw [split, empty, List.append_nil]
      exact .done (.gap blank)
    · exact .done last

theorem layout_cons {token : Token} {tokens : List Token} {text : List Char} :
    Layout (token :: tokens) text ↔ ∃ rest, afterGap text = token.text ++ rest ∧
      (token.EndsInWord → Ends rest) ∧ Layout tokens rest := by
  constructor
  · rintro ⟨⟩
    next gap rest blank ends layout =>
      refine ⟨rest, ?_, ends, layout⟩
      rw [List.append_assoc, blank.skipped, token.afterGap_text]
  · rintro ⟨rest, found, ends, layout⟩
    rcases afterGap_skips text with ⟨gap, blank, split⟩ | ⟨_, empty⟩
    · rw [split, found, ← List.append_assoc]
      exact .token blank ends layout
    · simp [empty, token.text_ne_nil] at found

theorem layout_iff_reads {tokens : List Token} {text : List Char} :
    Layout tokens text ↔ ∃ rest, Reads text tokens rest ∧ afterGap rest = [] := by
  induction tokens generalizing text with
  | nil => simp [layout_nil, Reads]
  | cons token tokens ih =>
      rw [layout_cons]
      constructor
      · rintro ⟨mid, found, ends, layout⟩
        obtain ⟨rest, reads, empty⟩ := ih.mp layout
        exact ⟨rest, ⟨mid, found, ends, reads⟩, empty⟩
      · rintro ⟨rest, ⟨mid, found, ends, reads⟩, empty⟩
        exact ⟨mid, found, ends, ih.mpr ⟨rest, reads, empty⟩⟩

namespace Reads

variable {text mid rest : List Char} {token : Token} {tokens later : List Token}

theorem append_iff :
    Reads text (tokens ++ later) rest ↔ ∃ mid, Reads text tokens mid ∧ Reads mid later rest := by
  induction tokens generalizing text with
  | nil => simp [Reads]
  | cons token tokens ih =>
      simp only [List.cons_append, Reads, ih]
      constructor
      · rintro ⟨first, found, ends, mid, reads, left⟩
        exact ⟨mid, ⟨first, found, ends, reads⟩, left⟩
      · rintro ⟨mid, ⟨first, found, ends, reads⟩, left⟩
        exact ⟨first, found, ends, mid, reads, left⟩

theorem append (first : Reads text tokens mid) (second : Reads mid later rest) :
    Reads text (tokens ++ later) rest :=
  append_iff.mpr ⟨mid, first, second⟩

theorem cons_iff :
    Reads text (token :: tokens) rest ↔ ∃ mid, Reads text [token] mid ∧ Reads mid tokens rest := by
  rw [← List.singleton_append, append_iff]

theorem length_le (reads : Reads text tokens rest) : rest.length + tokens.length ≤ text.length := by
  induction tokens generalizing text with
  | nil => simp_all [Reads]
  | cons token tokens ih =>
      obtain ⟨mid, found, _, reads⟩ := reads
      have left := ih reads
      have short := afterGap_length text
      have long := List.length_pos_iff.mpr token.text_ne_nil
      rw [found, List.length_append] at short
      rw [List.length_cons]
      omega

end Reads

/-! ### What comes next in a text -/

def Leads (keyword : String) (text : List Char) : Prop :=
  ∃ name rest, identifierOf (afterGap text) = some (name, rest) ∧ isKeyword keyword name

def Calls (text : List Char) : Prop := ∃ rest, afterGap text = '(' :: rest

theorem Token.identifierOf_text {token : Token} {rest : List Char}
    (ends : token.EndsInWord → Ends rest) :
    ∃ later, identifierOf (token.text ++ rest) =
      token.leading?.map fun word => (word.text, later) := by
  cases token with
  | word name => exact ⟨rest, name.identifierOf_text (ends trivial)⟩
  | head parentType field =>
      cases field with
      | some field =>
          refine ⟨'.' :: (field.text ++ rest), ?_⟩
          rw [Token.text, List.append_assoc]
          exact parentType.identifierOf_text (ends_cons (by decide))
      | none =>
          refine ⟨'.' :: '*' :: rest, ?_⟩
          rw [Token.text, List.append_assoc]
          exact parentType.identifierOf_text (ends_cons (by decide))
  | opening | closing | comma | colon => exact ⟨rest, rfl⟩

theorem Reads.leads_iff {keyword : String} {text rest : List Char} {token : Token}
    {tokens : List Token} (reads : Reads text (token :: tokens) rest) :
    Leads keyword text ↔ ∃ word ∈ token.leading?, word.Is keyword := by
  obtain ⟨mid, found, ends, _⟩ := reads
  obtain ⟨later, leading⟩ := Token.identifierOf_text ends
  rw [Leads, found, leading]
  cases token.leading? <;> simp [Word.Is]

theorem Reads.calls_iff {text rest : List Char} {token : Token} {tokens : List Token}
    (reads : Reads text (token :: tokens) rest) : Calls text ↔ token = .opening := by
  obtain ⟨mid, found, _, _⟩ := reads
  have word (name : Word) : name.initial ≠ '(' := fun same => by
    have := name.initial_allowed
    simp [same, isInitial] at this
  rw [Calls, found]
  cases token with
  | head _ field => cases field <;> simp [Token.text, Word.text, word]
  | _ => simp [Token.text, Word.text, word]

theorem not_leads_of_end {keyword : String} {text : List Char} (last : afterGap text = []) :
    ¬ Leads keyword text := by
  simp [Leads, last, identifierOf]

theorem not_calls_of_end {text : List Char} (last : afterGap text = []) : ¬ Calls text := by
  simp [Calls, last]

end FieldGuard.Policy
