import FieldGuard.Proofs.Layout

set_option autoImplicit false

namespace FieldGuard.Policy

namespace Parser

variable {α β : Type} {text rest : List Char}

def Passes (parser : Parser α) (text : List Char) : Prop := ∃ failure, parser text = .soft failure

theorem bind_eq_ok {parser : Parser α} {next : α → Parser β} {value : β} :
    (parser >>= next) text = .ok value rest ↔
      ∃ first mid, parser text = .ok first mid ∧ next first mid = .ok value rest := by
  change bind parser next text = _ ↔ _
  rw [bind]
  cases parser text <;> simp [and_assoc]

theorem pure_eq_ok {value other : α} :
    (Pure.pure value : Parser α) text = .ok other rest ↔ value = other ∧ text = rest := by
  change pure value text = _ ↔ _
  simp [pure]

theorem commit_eq_ok {parser : Parser α} {value : α} :
    commit parser text = .ok value rest ↔ parser text = .ok value rest := by
  rw [commit]
  cases parser text <;> simp

theorem expecting_eq_ok {what : String} {parser : Parser α} {value : α} :
    expecting what parser text = .ok value rest ↔ parser text = .ok value rest := by
  simp only [expecting]
  cases parser text <;> simp

theorem orElse_eq_ok {first second : Parser α} {value : α} :
    orElse first second text = .ok value rest ↔
      first text = .ok value rest ∨ first.Passes text ∧ second text = .ok value rest := by
  rw [orElse, Passes]
  cases first text <;> cases second text <;> simp

theorem bind_passes {parser : Parser α} {next : α → Parser β} :
    (parser >>= next).Passes text ↔ parser.Passes text ∨
      ∃ first mid, parser text = .ok first mid ∧ (next first).Passes mid := by
  change Passes (bind parser next) text ↔ _
  simp only [Passes, bind]
  cases parser text <;> simp [and_assoc]

theorem commit_passes {parser : Parser α} : ¬ (commit parser).Passes text := by
  rw [Passes, commit]
  cases parser text <;> simp

theorem expecting_passes {what : String} {parser : Parser α} :
    (expecting what parser).Passes text ↔ parser.Passes text := by
  simp only [Passes, expecting]
  cases parser text <;> simp

theorem orElse_passes {first second : Parser α} (passes : first.Passes text)
    (also : second.Passes text) : (orElse first second).Passes text := by
  obtain ⟨_, failed⟩ := passes
  obtain ⟨failure, also⟩ := also
  exact ⟨{ failure with rest := text }, by rw [orElse, failed, also]⟩

theorem pure_passes {value : α} : ¬ (Pure.pure value : Parser α).Passes text := by
  rintro ⟨_, ⟨⟩⟩

theorem gap_passes {next : Unit → Parser β} :
    (gap >>= next).Passes text ↔ (next ()).Passes (afterGap text) :=
  Iff.rfl

theorem gap_bind {next : Unit → Parser β} : (gap >>= next) text = next () (afterGap text) := rfl

theorem char_eq_ok {c : Char} {value : Unit} : char c text = .ok value rest ↔ text = c :: rest := by
  cases text with
  | nil => simp [char]
  | cons d later =>
      by_cases same : d = c <;> simp [char, same]

theorem char_passes {c : Char} : (char c).Passes text ↔ ∀ rest, text ≠ c :: rest := by
  cases text with
  | nil => simp [Passes, char]
  | cons d later =>
      by_cases same : d = c <;> simp [Passes, char, same]

theorem identifierSuch_eq_ok {accepted : List Char → Bool} {name : List Char} :
    identifierSuch accepted text = .ok name rest ↔ ∃ word : Word, word.text = name ∧
      accepted name ∧ Ends rest ∧ text = word.text ++ rest := by
  constructor
  · intro parsed
    rw [identifierSuch] at parsed
    split at parsed
    next found later located =>
      split at parsed
      next accepts =>
        cases parsed
        obtain ⟨word, same, ends, split⟩ := identifierOf_eq_some located
        exact ⟨word, same, accepts, ends, same ▸ split⟩
      next => simp at parsed
    next => simp at parsed
  · rintro ⟨word, rfl, accepts, ends, rfl⟩
    simp [identifierSuch, word.identifierOf_text ends, accepts]

theorem keyword_eq_ok {word : String} {value : Unit} :
    keyword word text = .ok value rest ↔
      ∃ name : Word, name.Is word ∧ Ends rest ∧ text = name.text ++ rest := by
  rw [keyword, bind_eq_ok]
  constructor
  · rintro ⟨_, mid, found, done⟩
    obtain ⟨name, rfl, accepts, ends, split⟩ := identifierSuch_eq_ok.mp found
    obtain ⟨_, rfl⟩ := pure_eq_ok.mp done
    exact ⟨name, accepts, ends, split⟩
  · rintro ⟨name, is, ends, split⟩
    exact ⟨name.text, rest, identifierSuch_eq_ok.mpr ⟨name, rfl, is, ends, split⟩, rfl⟩

theorem keyword_passes {word : String} :
    (keyword word).Passes (afterGap text) ↔ ¬ Leads word text := by
  constructor
  · rintro ⟨failure, failed⟩ ⟨name, rest, found, is⟩
    obtain ⟨name, rfl, ends, split⟩ := identifierOf_eq_some found
    have parsed : keyword word (afterGap text) = .ok () rest :=
      keyword_eq_ok.mpr ⟨name, is, ends, split⟩
    simp [failed] at parsed
  · intro other
    apply bind_passes.mpr
    left
    rw [Passes, identifierSuch]
    split
    next name rest found =>
      rw [if_neg fun is => other ⟨name, rest, found, is⟩]
      exact ⟨_, rfl⟩
    next => exact ⟨_, rfl⟩

inductive Repeats (item : Parser α) : List Char → List α → List Char → Prop
  | stop {text : List Char} : item.Passes text → Repeats item text [] text
  | more {text mid rest : List Char} {value : α} {values : List α} :
      item text = .ok value mid → Repeats item mid values rest →
        Repeats item text (value :: values) rest

structure Advances (item : Parser α) : Prop where
  ends : item.Passes []
  shortens : ∀ {text value rest}, item text = .ok value rest → rest.length < text.length

theorem Advances.manyUpTo_eq_ok {item : Parser α} (advances : item.Advances) {count : Nat}
    {values : List α} (enough : text.length ≤ count) :
    manyUpTo item count text = .ok values rest ↔ Repeats item text values rest := by
  induction count generalizing text values with
  | zero =>
      have empty : text = [] := List.length_eq_zero_iff.mp (Nat.le_zero.mp enough)
      subst empty
      obtain ⟨failure, failed⟩ := advances.ends
      constructor
      · intro parsed
        cases parsed
        exact .stop ⟨failure, failed⟩
      · rintro ⟨⟩
        next => rfl
        next parsed _ => simp [failed] at parsed
  | succ count ih =>
      rw [manyUpTo]
      constructor
      · intro parsed
        split at parsed
        next value mid found =>
          -- each item takes a character, so the count lasts for what is left of the text
          have shorter := advances.shortens found
          split at parsed
          next later left again =>
            cases parsed
            exact .more found ((ih (by omega)).mp again)
          next other => exact absurd parsed (other _ _)
        next failure failed =>
          cases parsed
          exact .stop ⟨failure, failed⟩
        next => simp at parsed
      · rintro ⟨⟩
        next stopped =>
          obtain ⟨failure, failed⟩ := stopped
          rw [failed]
        next mid value values found again =>
          have shorter := advances.shortens found
          rw [found]
          simp only [(ih (by omega)).mpr again]

theorem Advances.many_eq_ok {item : Parser α} (advances : item.Advances) {values : List α} :
    many item text = .ok values rest ↔ Repeats item text values rest :=
  advances.manyUpTo_eq_ok (Nat.le_refl _)

end Parser

theorem reads_word {word : Word} {text rest : List Char} :
    Reads text [.word word] rest ↔ afterGap text = word.text ++ rest ∧ Ends rest := by
  simp [Reads, Token.text, Token.EndsInWord]

theorem reads_keyword {keyword : String} {value : Unit} {text rest : List Char} :
    Parser.keyword keyword (afterGap text) = .ok value rest ↔
      ∃ word : Word, word.Is keyword ∧ Reads text [.word word] rest := by
  simp only [Parser.keyword_eq_ok, reads_word, and_comm]

theorem leads_iff_reads {keyword : String} {text : List Char} :
    Leads keyword text ↔ ∃ (word : Word) (rest : List Char),
      word.Is keyword ∧ Reads text [.word word] rest := by
  constructor
  · rintro ⟨name, rest, found, is⟩
    obtain ⟨word, rfl, ends, split⟩ := identifierOf_eq_some found
    exact ⟨word, rest, is, reads_word.mpr ⟨split, ends⟩⟩
  · rintro ⟨word, rest, is, reads⟩
    exact reads.leads_iff.mpr ⟨word, rfl, is⟩

theorem reads_opening {text rest : List Char} :
    Reads text [.opening] rest ↔ afterGap text = '(' :: rest := by
  simp [Reads, Token.text, Token.EndsInWord]

theorem reads_closing {text rest : List Char} :
    Reads text [.closing] rest ↔ afterGap text = ')' :: rest := by
  simp [Reads, Token.text, Token.EndsInWord]

theorem reads_comma {text rest : List Char} :
    Reads text [.comma] rest ↔ afterGap text = ',' :: rest := by
  simp [Reads, Token.text, Token.EndsInWord]

theorem reads_colon {text rest : List Char} :
    Reads text [.colon] rest ↔ afterGap text = ':' :: rest := by
  simp [Reads, Token.text, Token.EndsInWord]

end FieldGuard.Policy
