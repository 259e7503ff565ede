import FieldGuard.Json.Lexeme
import Mathlib.Data.List.Forall2
import Mathlib.Tactic.IntervalCases

set_option autoImplicit false

namespace FieldGuard.Json

theorem bind_eq_ok {α β : Type} {first : Except Problem α} {next : α → Except Problem β}
    {found : β} :
    (first >>= next) = .ok found ↔ ∃ value, first = .ok value ∧ next value = .ok found := by
  cases first <;> simp [bind, Except.bind]

theorem pure_eq_ok {α : Type} {value found : α} :
    (pure value : Except Problem α) = .ok found ↔ value = found := by
  simp [pure, Except.pure]

def HexDigit (value : Nat) (c : Char) : Prop :=
  "0123456789abcdef".toList[value]? = some c ∨ "0123456789ABCDEF".toList[value]? = some c

def HexCode (code : Nat) (digits : List Char) : Prop :=
  ∃ a b c d, List.Forall₂ HexDigit [a, b, c, d] digits ∧ ((a * 16 + b) * 16 + c) * 16 + d = code

def shortEscapes : List (Char × Char) :=
  [('"', '"'), ('\\', '\\'), ('/', '/'), ('b', '\x08'), ('f', '\x0c'), ('n', '\n'), ('r', '\r'),
    ('t', '\t')]

/-- The ways to write a character in a string. One beyond four hexadecimal digits is written as its
two surrogates in UTF-16. -/
inductive Written (c : Char) : List Char → Prop
  | plain : 0x20 ≤ c.toNat → c ≠ '"' → c ≠ '\\' → Written c [c]
  | short {mark : Char} : (mark, c) ∈ shortEscapes → Written c ['\\', mark]
  | code {digits : List Char} : HexCode c.toNat digits → Written c ('\\' :: 'u' :: digits)
  | pair {high low : List Char} : 0x10000 ≤ c.toNat →
      HexCode (0xD800 + (c.toNat - 0x10000) / 0x400) high →
      HexCode (0xDC00 + (c.toNat - 0x10000) % 0x400) low →
        Written c ('\\' :: 'u' :: high ++ '\\' :: 'u' :: low)

inductive Quoted : List Char → List Char → Prop
  | nil : Quoted [] []
  | cons {c : Char} {found piece body : List Char} :
      Written c piece → Quoted found body → Quoted (c :: found) (piece ++ body)

theorem HexDigit.lt {value : Nat} {c : Char} (digit : HexDigit value c) : value < 16 := by
  rcases digit with digit | digit
  all_goals exact (List.getElem?_eq_some_iff.mp digit).1

theorem hexValue?_eq_some {c : Char} {value : Nat} :
    hexValue? c = some value ↔ HexDigit value c := by
  constructor
  · intro found
    have bounds : c.toNat < 0x67 ∧ value < 16 := by
      have ordered (first second : Char) : first ≤ second ↔ first.toNat ≤ second.toNat := Iff.rfl
      simp only [hexValue?, ordered] at found
      grind
    -- all digits stand below 0x67, where each character can be tried
    have table : ∀ code < 0x67, ∀ value < 16, hexValue? (Char.ofNat code) = some value →
        "0123456789abcdef".toList[value]? = some (Char.ofNat code) ∨
          "0123456789ABCDEF".toList[value]? = some (Char.ofNat code) := by decide +kernel
    have digit := table c.toNat bounds.1 value bounds.2
    rw [Char.ofNat_toNat] at digit
    exact digit found
  · intro digit
    have small := digit.lt
    rcases digit with digit | digit
    all_goals
      interval_cases value <;> cases digit <;> rfl

theorem mapM_hexValue? {digits : List Char} {values : List Nat} :
    digits.mapM hexValue? = some values ↔ List.Forall₂ HexDigit values digits := by
  induction digits generalizing values with
  | nil => simp [eq_comm]
  | cons c digits ih =>
      simp only [List.mapM_cons, Option.bind_eq_bind, Option.bind_eq_some_iff, ih,
        hexValue?_eq_some, Option.pure_def, Option.some.injEq, List.forall₂_cons_right_iff]
      grind

theorem HexCode.length {code : Nat} {digits : List Char} (spelled : HexCode code digits) :
    digits.length = 4 := by
  obtain ⟨a, b, c, d, digits, _⟩ := spelled
  exact digits.length_eq.symm

theorem HexCode.lt {code : Nat} {digits : List Char} (spelled : HexCode code digits) :
    code < 0x10000 := by
  obtain ⟨a, b, c, d, digits, rfl⟩ := spelled
  simp only [List.forall₂_cons_left_iff] at digits
  obtain ⟨_, _, first, ⟨_, _, second, ⟨_, _, third, ⟨_, _, fourth, _⟩, _⟩, _⟩, _⟩ := digits
  have := first.lt
  have := second.lt
  have := third.lt
  have := fourth.lt
  omega

theorem hexCode_eq_ok {text : List Char} {code : Nat} :
    hexCode text = .ok code ↔ ∃ digits rest, HexCode code digits ∧ text = digits ++ rest := by
  constructor
  · intro found
    rw [hexCode] at found
    split at found
    next a b c d values =>
      cases found
      have digits := mapM_hexValue?.mp values
      exact ⟨text.take 4, text.drop 4, ⟨a, b, c, d, digits, rfl⟩,
        (List.take_append_drop 4 text).symm⟩
    next =>
      split at found <;> cases found
  · rintro ⟨digits, rest, spelled, rfl⟩
    have whole : (digits ++ rest).take 4 = digits := List.take_left' spelled.length
    obtain ⟨a, b, c, d, digits, rfl⟩ := spelled
    rw [hexCode, whole, mapM_hexValue?.mpr digits]

theorem isLowSurrogate_iff {code : Nat} : isLowSurrogate code ↔ 0xDC00 ≤ code ∧ code < 0xE000 := by
  simp [isLowSurrogate]

theorem isHighSurrogate_iff {code : Nat} :
    isHighSurrogate code ↔ 0xD800 ≤ code ∧ code < 0xDC00 := by
  simp [isHighSurrogate]

theorem lowSurrogate_eq_ok {text : List Char} {code : Nat} :
    lowSurrogate text = .ok code ↔ isLowSurrogate code ∧
      ∃ digits rest, HexCode code digits ∧ text = '\\' :: 'u' :: digits ++ rest := by
  constructor
  · intro found
    unfold lowSurrogate at found
    split at found
    next later =>
      obtain ⟨value, read, found⟩ := bind_eq_ok.mp found
      split at found
      next low =>
        cases found
        obtain ⟨digits, rest, spelled, rfl⟩ := hexCode_eq_ok.mp read
        exact ⟨low, digits, rest, spelled, rfl⟩
      next => cases found
    all_goals cases found
  · rintro ⟨low, digits, rest, spelled, rfl⟩
    have read := hexCode_eq_ok.mpr ⟨digits, rest, spelled, rfl⟩
    simp [lowSurrogate, read, low, bind, Except.bind, pure, Except.pure]

theorem toNat_ofNat {code : Nat} (valid : code.isValidChar) : (Char.ofNat code).toNat = code := by
  rw [Char.ofNat, dif_pos valid]
  rfl

theorem toNat_single (c : Char) : ¬ isLowSurrogate c.toNat ∧ ¬ isHighSurrogate c.toNat := by
  -- the halves of a pair are just the codes that no character has
  have valid : c.toNat < 0xD800 ∨ 0xDFFF < c.toNat ∧ c.toNat < 0x110000 := c.valid
  rw [isLowSurrogate_iff, isHighSurrogate_iff]
  omega

theorem escape_code {c : Char} {digits : List Char} (spelled : HexCode c.toNat digits)
    (rest : List Char) : escape ('u' :: digits ++ rest) = .ok (c, 5) := by
  have read := hexCode_eq_ok.mpr ⟨digits, rest, spelled, rfl⟩
  obtain ⟨low, high⟩ := toNat_single c
  simp only [List.cons_append, escape, read, bind, Except.bind, low, high]
  rw [Char.ofNat_toNat]
  rfl

theorem escape_pair {c : Char} {high low : List Char} (beyond : 0x10000 ≤ c.toNat)
    (first : HexCode (0xD800 + (c.toNat - 0x10000) / 0x400) high)
    (second : HexCode (0xDC00 + (c.toNat - 0x10000) % 0x400) low) (rest : List Char) :
    escape ('u' :: high ++ '\\' :: 'u' :: low ++ rest) = .ok (c, 11) := by
  have valid : c.toNat < 0xD800 ∨ 0xDFFF < c.toNat ∧ c.toNat < 0x110000 := c.valid
  have readHigh := hexCode_eq_ok.mpr ⟨high, '\\' :: 'u' :: low ++ rest, first, rfl⟩
  have isLow : isLowSurrogate (0xDC00 + (c.toNat - 0x10000) % 0x400) := by
    rw [isLowSurrogate_iff]
    omega
  have readLow := lowSurrogate_eq_ok.mpr ⟨isLow, low, rest, second, rfl⟩
  have notLow : ¬ isLowSurrogate (0xD800 + (c.toNat - 0x10000) / 0x400) := by
    rw [isLowSurrogate_iff]
    omega
  have isHigh : isHighSurrogate (0xD800 + (c.toNat - 0x10000) / 0x400) := by
    rw [isHighSurrogate_iff]
    omega
  have whole : 0x10000 + (0xD800 + (c.toNat - 0x10000) / 0x400 - 0xD800) * 0x400 +
      (0xDC00 + (c.toNat - 0x10000) % 0x400 - 0xDC00) = c.toNat := by omega
  simp only [List.cons_append, List.append_assoc, escape] at readHigh readLow ⊢
  simp only [readHigh, bind, Except.bind, notLow, isHigh, if_true,
    List.drop_left' first.length, readLow, whole]
  rw [Char.ofNat_toNat]
  rfl

theorem escape_u_written {c : Char} {length : Nat} {text : List Char}
    (found : escape ('u' :: text) = .ok (c, length)) :
    ∃ piece rest, Written c ('\\' :: 'u' :: piece) ∧ text = piece ++ rest ∧
      piece.length + 1 = length := by
  rw [escape] at found
  obtain ⟨code, read, chosen⟩ := bind_eq_ok.mp found
  obtain ⟨digits, rest, spelled, rfl⟩ := hexCode_eq_ok.mp read
  split at chosen
  next => cases chosen
  next notLow =>
  split at chosen
  next isHigh =>
    -- the first half of a pair, and behind it the second one
    rw [List.drop_left' spelled.length] at chosen
    obtain ⟨low, lowRead, paired⟩ := bind_eq_ok.mp chosen
    obtain ⟨isLow, lowDigits, rest, lowSpelled, rfl⟩ := lowSurrogate_eq_ok.mp lowRead
    obtain ⟨rfl, rfl⟩ := Prod.mk.inj (pure_eq_ok.mp paired)
    rw [isLowSurrogate_iff] at isLow
    rw [isHighSurrogate_iff] at isHigh
    have value : (Char.ofNat (0x10000 + (code - 0xD800) * 0x400 + (low - 0xDC00))).toNat =
        0x10000 + (code - 0xD800) * 0x400 + (low - 0xDC00) :=
      toNat_ofNat (.inr ⟨by omega, by omega⟩)
    refine ⟨digits ++ '\\' :: 'u' :: lowDigits, rest, .pair ?_ ?_ ?_, ?_, ?_⟩
    · omega
    · convert spelled using 1
      omega
    · convert lowSpelled using 1
      omega
    · simp
    · simp [spelled.length, lowSpelled.length]
  next notHigh =>
    cases chosen
    rw [isLowSurrogate_iff] at notLow
    rw [isHighSurrogate_iff] at notHigh
    have small := spelled.lt
    have value : (Char.ofNat code).toNat = code := by
      apply toNat_ofNat
      rcases Nat.lt_or_ge code 0xD800 with below | above
      · exact .inl below
      · exact .inr ⟨by omega, by omega⟩
    exact ⟨digits, rest, .code (value.symm ▸ spelled), rfl, by rw [spelled.length]⟩

theorem escape_short {mark c : Char} {length : Nat} (other : mark ≠ 'u') (rest : List Char) :
    escape (mark :: rest) = .ok (c, length) ↔ (mark, c) ∈ shortEscapes ∧ length = 1 := by
  simp only [shortEscapes, List.mem_cons, List.not_mem_nil, or_false, Prod.mk.injEq]
  unfold escape
  split
  all_goals simp_all [eq_comm]

theorem escape_eq_ok {text : List Char} {c : Char} {length : Nat} :
    escape text = .ok (c, length) ↔
      ∃ piece rest, Written c ('\\' :: piece) ∧ text = piece ++ rest ∧ piece.length = length := by
  constructor
  · intro found
    cases text with
    | nil => cases found
    | cons mark later =>
        by_cases code : mark = 'u'
        · subst code
          obtain ⟨piece, rest, written, rfl, rfl⟩ := escape_u_written found
          exact ⟨'u' :: piece, rest, written, rfl, rfl⟩
        · obtain ⟨listed, rfl⟩ := (escape_short code later).mp found
          exact ⟨[mark], later, .short listed, rfl, rfl⟩
  · rintro ⟨piece, rest, written, rfl, rfl⟩
    cases written with
    | plain _ _ other => exact absurd rfl other
    | short listed =>
        refine (escape_short ?_ rest).mpr ⟨listed, rfl⟩
        rintro rfl
        simp [shortEscapes] at listed
    | code spelled =>
        rw [escape_code spelled, List.length_cons, spelled.length]
    | pair beyond first second =>
        refine (escape_pair beyond first second rest).trans ?_
        simp [first.length, second.length]

theorem Written.read {c : Char} {piece : List Char} (written : Written c piece) (rest : List Char) :
    characters (piece ++ rest) = do
      let (found, rest) ← characters rest
      return (c :: found, rest) := by
  have escaped (body : List Char) (written : Written c ('\\' :: body)) :
      characters ('\\' :: body ++ rest) = do
        let (found, rest) ← characters rest
        return (c :: found, rest) := by
    have read := escape_eq_ok.mpr ⟨body, rest, written, rfl, rfl⟩
    rw [List.cons_append, characters, read]
    simp only [bind, Except.bind, List.drop_left]
  cases written with
  | plain printed quote backslash =>
      rw [List.singleton_append, characters, if_neg (by omega)]
      · exact quote
      · exact backslash
  | short listed => exact escaped _ (.short listed)
  | code spelled => exact escaped _ (.code spelled)
  | pair beyond first second => exact escaped _ (.pair beyond first second)

theorem characters_eq_ok {text found rest : List Char} :
    characters text = .ok (found, rest) ↔
      ∃ body, Quoted found body ∧ text = body ++ '"' :: rest := by
  constructor
  · intro read
    fun_induction characters text generalizing found with
    | case1 => cases read
    | case2 later =>
        cases read
        exact ⟨[], .nil, rfl⟩
    | case3 later ih =>
        obtain ⟨⟨c, length⟩, escaped, followed⟩ := bind_eq_ok.mp read
        obtain ⟨⟨more, left⟩, further, joined⟩ := bind_eq_ok.mp followed
        obtain ⟨piece, last, written, rfl, rfl⟩ := escape_eq_ok.mp escaped
        cases pure_eq_ok.mp joined
        obtain ⟨body, quoted, split⟩ := ih _ further
        rw [List.drop_left] at split
        exact ⟨'\\' :: piece ++ body, .cons written quoted, by simp [split]⟩
    | case4 c later quote backslash control => cases read
    | case5 c later quote backslash printed ih =>
        obtain ⟨⟨more, left⟩, further, joined⟩ := bind_eq_ok.mp read
        cases pure_eq_ok.mp joined
        obtain ⟨body, quoted, rfl⟩ := ih further
        exact ⟨[c] ++ body, .cons (.plain (by omega) quote backslash) quoted, rfl⟩
  · rintro ⟨body, quoted, rfl⟩
    induction quoted with
    | nil => simp [characters]
    | cons written _ ih =>
        rw [List.append_assoc, written.read, ih]
        rfl

theorem stringBody_eq_ok {text rest : List Char} {value : String} :
    stringBody text = .ok (value, rest) ↔
      ∃ body, Quoted value.toList body ∧ text = body ++ '"' :: rest := by
  rw [← characters_eq_ok]
  simp only [stringBody, bind_eq_ok, Prod.exists, pure_eq_ok, Prod.mk.injEq]
  constructor
  · rintro ⟨found, rest, read, rfl, rfl⟩
    rw [String.toList_ofList]
    exact read
  · intro read
    exact ⟨value.toList, rest, read, String.ofList_toList, rfl⟩

end FieldGuard.Json
