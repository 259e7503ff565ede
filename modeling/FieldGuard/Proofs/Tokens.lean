import FieldGuard.Options.Reader
import FieldGuard.Proofs.Escapes
import Mathlib.Data.List.DropRight

set_option autoImplicit false

namespace FieldGuard

namespace Json

inductive Token where
  | mark (c : Char)
  | string (value : String)
  | null

def marks : List Char := ['\x7b', '\x7d', '[', ']', ':', ',']

namespace Token

def Spells : Token → List Char → Prop
  | .mark c, piece => c ∈ marks ∧ piece = [c]
  | .string value, piece => ∃ body, Quoted value.toList body ∧ piece = '"' :: body ++ ['"']
  | .null, piece => piece = ['n', 'u', 'l', 'l']

def initial : Token → Char
  | .mark c => c
  | .string _ => '"'
  | .null => 'n'

end Token

def Gap (gap : List Char) : Prop := gap ⊆ [' ', '\t', '\n', '\r']

inductive Layout : List Token → List Char → Prop
  | done {gap : List Char} : Gap gap → Layout [] gap
  | token {token : Token} {tokens : List Token} {gap piece rest : List Char} :
      Gap gap → token.Spells piece → Layout tokens rest →
        Layout (token :: tokens) (gap ++ piece ++ rest)

variable {text mid rest gap piece : List Char} {c : Char} {token : Token}
  {tokens later : List Token}

theorem Token.Spells.starts (spells : token.Spells piece) :
    isSpace token.initial = false ∧ ∃ others, piece = token.initial :: others := by
  cases token with
  | mark c =>
      obtain ⟨own, rfl⟩ := spells
      simp only [marks, List.mem_cons, List.not_mem_nil, or_false] at own
      rcases own with rfl | rfl | rfl | rfl | rfl | rfl
      all_goals exact ⟨rfl, [], rfl⟩
  | string value =>
      obtain ⟨body, _, rfl⟩ := spells
      exact ⟨rfl, body ++ ['"'], rfl⟩
  | null => exact ⟨rfl, ['u', 'l', 'l'], spells⟩

theorem gap_iff : Gap gap ↔ ∀ c ∈ gap, isSpace c := by
  simp [Gap, isSpace, List.subset_def, or_assoc]

theorem Gap.skipped (blank : Gap gap) (rest : List Char) :
    afterSpace (gap ++ rest) = afterSpace rest :=
  List.dropWhile_append_of_pos (gap_iff.mp blank)

theorem afterSpace_split (text : List Char) : ∃ gap, Gap gap ∧ text = gap ++ afterSpace text := by
  refine ⟨text.takeWhile isSpace, ?_, List.takeWhile_append_dropWhile.symm⟩
  rw [gap_iff]
  exact fun c member => List.all_eq_true.mp List.all_takeWhile c member

theorem afterSpace_eq_nil : afterSpace text = [] ↔ Gap text := by
  rw [gap_iff]
  exact List.dropWhile_eq_nil_iff

theorem Token.Spells.kept (spells : token.Spells piece) (rest : List Char) :
    afterSpace (piece ++ rest) = piece ++ rest := by
  obtain ⟨printed, others, rfl⟩ := spells.starts
  exact List.dropWhile_cons_of_neg (by simp [printed])

def Reads : List Char → List Token → List Char → Prop
  | text, [], rest => text = rest
  | text, token :: tokens, rest => ∃ piece mid, token.Spells piece ∧
      afterSpace text = piece ++ mid ∧ Reads mid tokens rest

theorem layout_iff_reads : Layout tokens text ↔ ∃ rest, Reads text tokens rest ∧ Gap rest := by
  induction tokens generalizing text with
  | nil =>
      simp only [Reads, exists_eq_left']
      constructor
      · rintro ⟨blank⟩
        exact blank
      · exact .done
  | cons token tokens ih =>
      constructor
      · rintro ⟨⟩
        next gap piece mid blank spells layout =>
          obtain ⟨rest, reads, last⟩ := ih.mp layout
          refine ⟨rest, ⟨piece, mid, spells, ?_, reads⟩, last⟩
          rw [List.append_assoc, blank.skipped, spells.kept]
      · rintro ⟨rest, ⟨piece, mid, spells, found, reads⟩, last⟩
        obtain ⟨gap, blank, split⟩ := afterSpace_split text
        rw [split, found, ← List.append_assoc]
        exact .token blank spells (ih.mpr ⟨rest, reads, last⟩)

theorem Reads.append_iff :
    Reads text (tokens ++ later) rest ↔ ∃ mid, Reads text tokens mid ∧ Reads mid later rest := by
  induction tokens generalizing text with
  | nil => simp [Reads]
  | cons token tokens ih =>
      simp only [List.cons_append, Reads, ih]
      constructor
      · rintro ⟨piece, first, spells, found, mid, reads, left⟩
        exact ⟨mid, ⟨piece, first, spells, found, reads⟩, left⟩
      · rintro ⟨mid, ⟨piece, first, spells, found, reads⟩, left⟩
        exact ⟨piece, first, spells, found, mid, reads, left⟩

theorem Reads.cons_iff :
    Reads text (token :: tokens) rest ↔ ∃ mid, Reads text [token] mid ∧ Reads mid tokens rest := by
  rw [← List.singleton_append, Reads.append_iff]

theorem Reads.cons_cons_iff {next : Token} :
    Reads text (token :: next :: tokens) rest ↔
      ∃ mid, Reads text [token] mid ∧ Reads mid (next :: tokens) rest :=
  Reads.cons_iff

theorem Reads.starts (reads : Reads text (token :: tokens) rest) :
    ∃ others, afterSpace text = token.initial :: others := by
  obtain ⟨piece, mid, spells, found, _⟩ := reads
  obtain ⟨_, others, rfl⟩ := spells.starts
  exact ⟨others ++ mid, found⟩

theorem reads_afterSpace :
    Reads (afterSpace text) (token :: tokens) rest ↔ Reads text (token :: tokens) rest := by
  simp only [Reads, afterSpace, List.dropWhile_idempotent]

theorem reads_mark_cons (own : c ∈ marks) :
    Reads text (.mark c :: tokens) rest ↔
      ∃ mid, afterSpace text = c :: mid ∧ Reads mid tokens rest := by
  simp [Reads, Token.Spells, own]

theorem reads_mark (own : c ∈ marks) : Reads text [.mark c] rest ↔ afterSpace text = c :: rest :=
  (reads_mark_cons own).trans (by simp [Reads])

theorem reads_string {value : String} :
    Reads text [.string value] rest ↔
      ∃ mid, afterSpace text = '"' :: mid ∧ stringBody mid = .ok (value, rest) := by
  simp only [Reads, Token.Spells, stringBody_eq_ok]
  constructor
  · rintro ⟨_, _, ⟨body, quoted, rfl⟩, found, rfl⟩
    exact ⟨_, by simpa using found, body, quoted, rfl⟩
  · rintro ⟨_, found, body, quoted, rfl⟩
    exact ⟨_, rest, ⟨body, quoted, rfl⟩, by simpa using found, rfl⟩

theorem colon_eq_ok : colon text = .ok rest ↔ Reads text [.mark ':'] rest := by
  rw [reads_mark (by decide), colon]
  split
  next found => simp [found]
  next other => simpa using other rest

theorem word_eq_ok {letters : List Char} :
    word letters text = .ok rest ↔ text = letters ++ rest := by
  fun_induction word letters text with
  | case1 => simp
  | case2 => simp
  | case3 _ _ _ ih => simpa using ih
  | case4 _ _ _ _ other => simp [Ne.symm other]

theorem emptyContent_eq_ok : emptyContent text = .ok rest ↔ Reads text [.null] rest := by
  rw [emptyContent]
  split
  next found => simp [Reads, Token.Spells, found, word_eq_ok]
  next other => simpa [Reads, Token.Spells] using other _

theorem finish_eq_ok {α : Type} {found value : α} :
    finish found rest = .ok value ↔ found = value ∧ Gap rest := by
  rw [← afterSpace_eq_nil, finish]
  split
  next empty => simp [empty]
  next filled => simp [filled]

/-- The reader takes a value from the texts that begin with a spelling of it, and from no others. -/
def Recognizes {α : Type} (reader : Reader α) (Spelled : α → List Token → Prop) : Prop :=
  ∀ text value rest, reader text = .ok (value, rest) ↔
    ∃ tokens, Spelled value tokens ∧ Reads text tokens rest

theorem Recognizes.finish {α : Type} {reader : Reader α} {Spelled : α → List Token → Prop}
    (recognizes : Recognizes reader Spelled) {value : α} :
    (do let (found, rest) ← reader text
        finish found rest) = .ok value ↔ ∃ tokens, Spelled value tokens ∧ Layout tokens text := by
  simp only [bind_eq_ok, Prod.exists, layout_iff_reads, recognizes _ _ _, finish_eq_ok]
  constructor
  · rintro ⟨found, rest, ⟨tokens, spelled, reads⟩, rfl, last⟩
    exact ⟨tokens, spelled, rest, reads, last⟩
  · rintro ⟨tokens, spelled, rest, reads, last⟩
    exact ⟨value, rest, ⟨tokens, spelled, reads⟩, rfl, last⟩

theorem stringValue_recognizes :
    Recognizes stringValue fun value tokens => tokens = [.string value] := by
  intro text value rest
  rw [exists_eq_left, reads_string, stringValue]
  split
  next found => simp [found]
  next other => simpa using fun mid found => absurd found (other mid)

end Json

open Json

namespace Names

variable {α : Type} {names : Names α} {value : α}

inductive Spelled (names : Names α) (value : α) : List Token → Prop
  | name {name : String} : (name, value) ∈ names → Spelled names value [.string name]
  | entry {name : String} : (name, value) ∈ names →
      Spelled names value [.mark '\x7b', .string name, .mark ':', .null, .mark '\x7d']

abbrev Distinct (names : Names α) : Prop := (names.map Prod.fst).Nodup

theorem lookup_eq_some (distinct : names.Distinct) {name : String} :
    names.lookup name = some value ↔ (name, value) ∈ names := by
  induction names with
  | nil => simp
  | cons entry names ih =>
      obtain ⟨fresh, distinct⟩ := List.nodup_cons.mp distinct
      rw [List.lookup_cons, List.mem_cons]
      by_cases same : name = entry.1
      · subst same
        have absent : (entry.1, value) ∉ names := fun listed =>
          fresh (List.mem_map.mpr ⟨_, listed, rfl⟩)
        simp [absent, Prod.ext_iff, eq_comm]
      · have differs : (name == entry.1) = false := beq_eq_false_iff_ne.mpr same
        simp [differs, same, ih distinct, Prod.ext_iff]

theorem value_eq_ok (distinct : names.Distinct) {name : String} :
    names.value name = .ok value ↔ (name, value) ∈ names := by
  rw [← lookup_eq_some distinct, Names.value]
  cases names.lookup name <;> simp

theorem entry_eq_ok (distinct : names.Distinct) {text rest : List Char} :
    names.entry text = .ok (value, rest) ↔ ∃ name, (name, value) ∈ names ∧
      Reads text [.string name, .mark ':', .null, .mark '\x7d'] rest := by
  have closing : '\x7d' ∈ marks := by decide
  simp only [Reads.cons_cons_iff, reads_string, ← colon_eq_ok, ← emptyContent_eq_ok,
    reads_mark closing]
  rw [entry]
  split
  next body found =>
    simp only [found, bind_eq_ok, Prod.exists, value_eq_ok distinct]
    constructor
    · rintro ⟨name, mid, quoted, other, listed, first, colon, second, empty, closed⟩
      split at closed
      next last ends =>
        cases pure_eq_ok.mp closed
        exact ⟨name, listed, mid, ⟨body, rfl, quoted⟩, first, colon, second, empty, ends⟩
      next => cases closed
    · rintro ⟨name, listed, mid, ⟨_, ⟨⟩, quoted⟩, first, colon, second, empty, ends⟩
      refine ⟨name, mid, quoted, value, listed, first, colon, second, empty, ?_⟩
      rw [ends]
      rfl
  next other =>
    constructor
    · rintro ⟨⟩
    · rintro ⟨name, listed, mid, ⟨body, found, quoted⟩, others⟩
      exact absurd found (other body)

theorem read_recognizes (distinct : names.Distinct) : Recognizes names.read names.Spelled := by
  intro text value rest
  have opening : '\x7b' ∈ marks := by decide
  -- a quote opens a name and a brace an entry; no spelling begins otherwise
  rw [read]
  split
  next body found =>
    simp only [bind_eq_ok, Prod.exists, value_eq_ok distinct, pure_eq_ok]
    constructor
    · rintro ⟨name, _, quoted, _, listed, ⟨⟩⟩
      exact ⟨_, .name listed, reads_string.mpr ⟨body, found, quoted⟩⟩
    · rintro ⟨_, listed | listed, reads⟩
      · obtain ⟨_, again, quoted⟩ := reads_string.mp reads
        cases found.symm.trans again
        exact ⟨_, _, quoted, _, listed, rfl⟩
      · obtain ⟨_, again⟩ := reads.starts
        cases found.symm.trans again
  next later found =>
    rw [entry_eq_ok distinct]
    constructor
    · rintro ⟨name, listed, reads⟩
      exact ⟨_, .entry listed, (reads_mark_cons opening).mpr ⟨later, found, reads⟩⟩
    · rintro ⟨_, listed | listed, reads⟩
      · obtain ⟨_, again⟩ := reads.starts
        cases found.symm.trans again
      · obtain ⟨_, again, reads⟩ := (reads_mark_cons opening).mp reads
        cases found.symm.trans again
        exact ⟨_, listed, reads⟩
  next notQuote notBrace =>
    constructor
    · rintro ⟨⟩
    · rintro ⟨_, listed | listed, reads⟩
      · obtain ⟨_, found⟩ := reads.starts
        exact absurd found (notQuote _)
      · obtain ⟨_, found⟩ := reads.starts
        exact absurd found (notBrace _)

theorem parse_eq_ok (distinct : names.Distinct) {text : String} :
    names.parse text = .ok value ↔
      ∃ tokens, names.Spelled value tokens ∧ Layout tokens text.toList :=
  (read_recognizes distinct).finish

end Names

end FieldGuard
