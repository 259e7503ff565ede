import FieldGuard.Proofs.Grammar

set_option autoImplicit false

namespace FieldGuard.Policy

def Writes (characters : List Char) (tokens : List Token) : Prop :=
  ∀ rest, Ends rest → Reads (characters ++ rest) tokens rest

def Separates (characters : List Char) : Prop := ∀ rest, Ends rest → Ends (characters ++ rest)

theorem separates_cons {c : Char} {characters : List Char} (other : ¬ isSubsequent c) :
    Separates (c :: characters) := fun _ _ => ends_cons other

theorem Token.writes (token : Token) : Writes token.text [token] := by
  intro rest ends
  exact ⟨rest, token.afterGap_text rest, fun _ => ends, rfl⟩

namespace Writes

variable {first second : List Char} {tokens later : List Token}

theorem append (writes : Writes first tokens) (also : Writes second later)
    (separates : Separates second) : Writes (first ++ second) (tokens ++ later) := by
  intro rest ends
  rw [List.append_assoc]
  exact (writes _ (separates rest ends)).append (also rest ends)

theorem gap {gap : List Char} (writes : Writes first tokens) (some : tokens ≠ [])
    (blank : Gap gap) : Writes (gap ++ first) tokens := by
  intro rest ends
  cases tokens with
  | nil => exact absurd rfl some
  | cons token tokens =>
    obtain ⟨mid, found, left⟩ := writes rest ends
    rw [List.append_assoc]
    exact ⟨mid, (blank.skipped _).trans found, left⟩

theorem space (writes : Writes first tokens) (some : tokens ≠ []) :
    Writes (' ' :: first) tokens :=
  writes.gap some (.space rfl .empty)

theorem mark (token : Token) (mark : ¬ token.EndsInWord) (writes : Writes second later) :
    Writes (token.text ++ second) (token :: later) := by
  intro rest ends
  rw [List.append_assoc]
  exact ⟨_, token.afterGap_text _, fun word => absurd word mark, writes rest ends⟩

end Writes

theorem Reads.written {text rest : List Char} {tokens : List Token}
    (reads : Reads text tokens rest) : ∃ gone, text = gone ++ rest ∧
      ∀ other, (Ends rest → Ends other) → Reads (gone ++ other) tokens other := by
  induction tokens generalizing text with
  | nil =>
    obtain rfl : text = rest := reads
    exact ⟨[], rfl, fun _ _ => rfl⟩
  | cons token tokens ih =>
    obtain ⟨mid, found, ends, left⟩ := reads
    obtain ⟨gone, rfl, written⟩ := ih left
    rcases afterGap_skips text with ⟨gap, blank, split⟩ | ⟨_, empty⟩
    · refine ⟨gap ++ token.text ++ gone, by rw [split, found]; simp, fun other keeps => ?_⟩
      refine ⟨gone ++ other, ?_, fun word => (ends word).congr keeps, written other keeps⟩
      simp only [List.append_assoc]
      rw [blank.skipped, token.afterGap_text]
    · simp [empty, token.text_ne_nil] at found

theorem keyword_words : ∀ keyword ∈ keywords,
    identifierOf keyword.toList = some (keyword.toList, []) ∧
      identifierOf (keyword.toList.map Char.toUpper) = some (keyword.toList.map Char.toUpper, []) := by
  decide

theorem exists_keyword {keyword : String} (member : keyword ∈ keywords) :
    ∃ word : Word, word.Is keyword ∧ word.text = keyword.toList := by
  obtain ⟨word, same, _, _⟩ := identifierOf_eq_some (keyword_words keyword member).1
  exact ⟨word, by simp [Word.Is, isKeyword, same], same⟩

theorem exists_capital {keyword : String} (member : keyword ∈ keywords) :
    ∃ word : Word, word.Is keyword ∧ word.text = keyword.toList.map Char.toUpper := by
  obtain ⟨word, same, _, _⟩ := identifierOf_eq_some (keyword_words keyword member).2
  exact ⟨word, by simp [Word.Is, isKeyword, same], same⟩

end FieldGuard.Policy
