import FieldGuard.Proofs.Escapes
import Mathlib.Tactic.IntervalCases

set_option autoImplicit false

namespace FieldGuard

def isNumeral (c : Char) : Bool := c.isDigit || c == '-' || c == '+' || c == '.' || c == 'e'

def isMark (c : Char) : Bool := c == '.' || c == 'e'

theorem toDigits_numeral (value : Nat) : ∀ c ∈ Nat.toDigits 10 value, isNumeral c = true := by
  intro c member
  simp [isNumeral, Nat.isDigit_of_mem_toDigits (by decide) (by decide) member]

theorem toDigits_unmarked (value : Nat) : ∀ c ∈ Nat.toDigits 10 value, isMark c = false := by
  intro c member
  have digit := Nat.isDigit_of_mem_toDigits (by decide) (by decide) member
  simp only [isMark, Bool.or_eq_false_iff, beq_eq_false_iff_ne]
  constructor <;> (rintro rfl; revert digit; decide)

theorem int_text (value : Int) :
    (Number.int value).text =
      if value < 0 then '-' :: Nat.toDigits 10 value.natAbs else Nat.toDigits 10 value.natAbs := by
  cases value with
  | ofNat value => simp [Number.text, toString, Int.repr, Nat.repr]
  | negSucc value => simp [Number.text, toString, Int.repr, Nat.repr, Int.negSucc_lt_zero]

namespace Binary64

theorem exponentText_numeral (exponent : Int) :
    ∀ c ∈ exponentText exponent, isNumeral c = true := by
  intro c member
  rcases List.mem_append.mp member with sign | digit
  · split at sign
    all_goals
      simp only [List.mem_cons, List.not_mem_nil, or_false] at sign
      rcases sign with rfl | rfl <;> rfl
  · exact toDigits_numeral _ c digit

theorem exponentText_marked (exponent : Int) : ∃ c ∈ exponentText exponent, isMark c = true := by
  refine ⟨'e', ?_, rfl⟩
  unfold exponentText
  split <;> simp

theorem Decimal.text_numeral (decimal : Decimal) : ∀ c ∈ decimal.text, isNumeral c = true := by
  intro c member
  have digits := toDigits_numeral decimal.digits c
  have taken (count : Nat) (inside : c ∈ (Nat.toDigits 10 decimal.digits).take count) :
      isNumeral c = true := digits (List.mem_of_mem_take inside)
  have dropped (count : Nat) (inside : c ∈ (Nat.toDigits 10 decimal.digits).drop count) :
      isNumeral c = true := digits (List.mem_of_mem_drop inside)
  have zero (count : Nat) (inside : c ∈ zeros count) : isNumeral c = true := by
    rw [List.eq_of_mem_replicate inside]
    rfl
  have point (same : c = '.') : isNumeral c = true := same ▸ rfl
  have nought (same : c = '0') : isNumeral c = true := same ▸ rfl
  have exponent (value : Int) := exponentText_numeral value c
  unfold Decimal.text at member
  grind

theorem Decimal.text_marked (decimal : Decimal) : ∃ c ∈ decimal.text, isMark c = true := by
  unfold Decimal.text
  simp only
  split
  · refine ⟨'.', ?_, rfl⟩
    split
    · simp
    · split <;> simp
  · obtain ⟨c, member, marked⟩ := exponentText_marked
      (decimal.exponent + (Nat.toDigits 10 decimal.digits).length - 1)
    exact ⟨c, List.mem_append_right _ member, marked⟩

theorem text_numeral (x : Binary64) : ∀ c ∈ x.text, isNumeral c = true := by
  intro c member
  have shortest := x.shortest.text_numeral c
  have minus (same : c = '-') : isNumeral c = true := same ▸ rfl
  have point (same : c = '.') : isNumeral c = true := same ▸ rfl
  have nought (same : c = '0') : isNumeral c = true := same ▸ rfl
  unfold text at member
  grind

theorem text_marked (x : Binary64) : ∃ c ∈ x.text, isMark c = true := by
  obtain ⟨c, member, marked⟩ := x.shortest.text_marked
  by_cases zero : x.significand = 0
  · exact ⟨'.', by simp [text, zero], rfl⟩
  · exact ⟨c, by simp [text, zero, member], marked⟩

theorem text_negative (significand : Nat) (exponent : Int) :
    (Binary64.mk true significand exponent).text ≠ (Binary64.mk false significand exponent).text := by
  simp [text, shortest, basin, coarsestPlace]

end Binary64

namespace Number

theorem text_numeral (number : Number) : ∀ c ∈ number.text, isNumeral c = true := by
  cases number with
  | float value => exact value.text_numeral
  | int value =>
    intro c member
    rw [int_text] at member
    have digits := toDigits_numeral value.natAbs c
    have minus (same : c = '-') : isNumeral c = true := same ▸ rfl
    grind

theorem text_int_ne_float (whole : Int) (value : Binary64) :
    (Number.int whole).text ≠ (Number.float value).text := by
  intro same
  obtain ⟨c, member, marked⟩ := value.text_marked
  have inside : c ∈ (Number.int whole).text := same ▸ member
  rw [int_text] at inside
  have unmarked := toDigits_unmarked whole.natAbs c
  have minus : isMark '-' = false := rfl
  grind

theorem text_ne_nil (number : Number) : number.text ≠ [] := by
  cases number with
  | int value =>
    rw [int_text]
    split <;> simp [Nat.toDigits_ne_nil]
  | float value =>
    obtain ⟨c, member, _⟩ := value.text_marked
    exact List.ne_nil_of_mem member

end Number

namespace Json

theorem hexDigit_digitChar {value : Nat} (small : value < 16) :
    HexDigit value (Nat.digitChar value) := by
  interval_cases value <;> exact .inl rfl

theorem written_escaped (c : Char) : Written c (escaped c) := by
  unfold escaped
  split
  case h_8 quote backslash _ _ _ _ _ =>
    split
    · next control =>
        have zero : HexDigit 0 '0' := .inl rfl
        have first : HexDigit (c.toNat / 16) _ := hexDigit_digitChar (by omega)
        have second : HexDigit (c.toNat % 16) _ := hexDigit_digitChar (by omega)
        refine .code ⟨0, 0, c.toNat / 16, c.toNat % 16, ?_, by omega⟩
        exact .cons zero (.cons zero (.cons first (.cons second .nil)))
    · next printed => exact .plain (Nat.le_of_not_lt printed) quote backslash
  all_goals exact .short (by simp [shortEscapes])

theorem quoted_escaped (text : List Char) : Quoted text (text.flatMap escaped) := by
  induction text with
  | nil => exact .nil
  | cons c text ih => exact .cons (written_escaped c) ih

theorem characters_escaped (text rest : List Char) :
    characters (text.flatMap escaped ++ '"' :: rest) = .ok (text, rest) :=
  characters_eq_ok.mpr ⟨_, quoted_escaped text, rfl⟩

end Json

end FieldGuard
