import FieldGuard.Proofs.Combinators

set_option autoImplicit false

namespace FieldGuard.Policy.Parser

variable {α β : Type} {text rest : List Char}

def Aborts (parser : Parser α) (text rest : List Char) : Prop :=
  ∃ failure, parser text = .hard failure ∧ failure.rest = rest

def Fails (parser : Parser α) (text rest : List Char) : Prop :=
  ∃ failure, (parser text = .soft failure ∨ parser text = .hard failure) ∧ failure.rest = rest

theorem Aborts.fails {parser : Parser α} (aborts : parser.Aborts text rest) :
    parser.Fails text rest := by
  obtain ⟨failure, aborted, left⟩ := aborts
  exact ⟨failure, .inr aborted, left⟩

section

variable {parser : Parser α} {next : α → Parser β}

theorem bind_aborts : (parser >>= next).Aborts text rest ↔ parser.Aborts text rest ∨
    ∃ first mid, parser text = .ok first mid ∧ (next first).Aborts mid rest := by
  change Aborts (bind parser next) text rest ↔ _
  simp only [Aborts, bind]
  cases parser text <;> simp [and_assoc]

theorem bind_fails : (parser >>= next).Fails text rest ↔ parser.Fails text rest ∨
    ∃ first mid, parser text = .ok first mid ∧ (next first).Fails mid rest := by
  change Fails (bind parser next) text rest ↔ _
  simp only [Fails, bind]
  cases parser text <;> simp [and_assoc]

theorem pure_fails {value : α} : ¬ (Pure.pure value : Parser α).Fails text rest := by
  rintro ⟨_, ⟨⟨⟩⟩ | ⟨⟨⟩⟩, _⟩

theorem map_aborts {change : α → β} :
    (parser >>= fun value => Pure.pure (change value)).Aborts text rest ↔
      parser.Aborts text rest := by
  rw [bind_aborts]
  constructor
  · rintro (aborts | ⟨_, _, _, aborts⟩)
    · exact aborts
    · exact absurd aborts.fails pure_fails
  · exact .inl

theorem map_fails {change : α → β} :
    (parser >>= fun value => Pure.pure (change value)).Fails text rest ↔
      parser.Fails text rest := by
  rw [bind_fails]
  constructor
  · rintro (fails | ⟨_, _, _, fails⟩)
    · exact fails
    · exact absurd fails pure_fails
  · exact .inl

theorem commit_aborts : (commit parser).Aborts text rest ↔ parser.Fails text rest := by
  simp only [Aborts, Fails, commit]
  cases parser text <;> simp

theorem commit_fails : (commit parser).Fails text rest ↔ parser.Fails text rest := by
  simp only [Fails, commit]
  cases parser text <;> simp

theorem expecting_aborts {what : String} :
    (expecting what parser).Aborts text rest ↔ parser.Aborts text rest := by
  simp only [Aborts, expecting]
  cases parser text <;> simp

theorem expecting_fails {what : String} :
    (expecting what parser).Fails text rest ↔ parser.Fails text rest := by
  simp only [Fails, expecting]
  cases parser text <;> simp

theorem gap_aborts {next : Unit → Parser β} :
    (gap >>= next).Aborts text rest ↔ (next ()).Aborts (afterGap text) rest :=
  Iff.rfl

theorem gap_fails {next : Unit → Parser β} :
    (gap >>= next).Fails text rest ↔ (next ()).Fails (afterGap text) rest :=
  Iff.rfl

end

theorem orElse_aborts {first second : Parser α} : (orElse first second).Aborts text rest ↔
    first.Aborts text rest ∨ first.Passes text ∧ second.Aborts text rest := by
  simp only [Aborts, Passes, orElse]
  cases first text <;> cases second text <;> simp

theorem orElse_fails {first second : Parser α} (fails : (orElse first second).Fails text rest) :
    rest = text ∨ first.Aborts text rest ∨ first.Passes text ∧ second.Aborts text rest := by
  rw [← orElse_aborts]
  revert fails
  simp only [Fails, Aborts, orElse]
  cases first text <;> cases second text <;> simp +contextual [eq_comm]

theorem char_aborts {c : Char} : ¬ (char c).Aborts text rest := by
  rintro ⟨_, aborted, _⟩
  rw [char.eq_def] at aborted
  grind

theorem char_fails {c : Char} (fails : (char c).Fails text rest) : rest = text := by
  obtain ⟨_, failed, rfl⟩ := fails
  rw [char.eq_def] at failed
  grind

theorem identifierSuch_aborts {accepted : List Char → Bool} :
    ¬ (identifierSuch accepted).Aborts text rest := by
  rintro ⟨_, aborted, _⟩
  rw [identifierSuch] at aborted
  grind

theorem keyword_aborts {word : String} : ¬ (keyword word).Aborts text rest := by
  rw [keyword, map_aborts]
  exact identifierSuch_aborts

inductive Reaches (item : Parser α) : List Char → List Char → Prop
  | here {text : List Char} : Reaches item text text
  | more {text mid rest : List Char} {value : α} :
      item text = .ok value mid → Reaches item mid rest → Reaches item text rest

theorem Repeats.reaches {item : Parser α} {values : List α}
    (repeats : Repeats item text values rest) : Reaches item text rest := by
  induction repeats with
  | stop _ => exact .here
  | more found _ ih => exact .more found ih

theorem manyUpTo_fails {item : Parser α} {count : Nat}
    (fails : (manyUpTo item count).Fails text rest) :
    ∃ mid, Reaches item text mid ∧ item.Aborts mid rest := by
  induction count generalizing text with
  | zero =>
      obtain ⟨_, failed | failed, _⟩ := fails <;> simp [manyUpTo] at failed
  | succ count ih =>
      simp only [Fails, manyUpTo] at fails
      cases found : item text with
      | ok value mid =>
          simp only [found] at fails
          obtain ⟨last, reaches, aborts⟩ : ∃ last, Reaches item mid last ∧
              item.Aborts last rest := by
            apply ih
            cases later : manyUpTo item count mid <;> simp_all [Fails]
          exact ⟨last, .more found reaches, aborts⟩
      -- an item that lets go ends the repetition, which is no failure
      | soft failure => simp [found] at fails
      | hard failure =>
          have left : failure.rest = rest := by simpa [found] using fails
          exact ⟨text, .here, failure, found, left⟩

theorem many_fails {item : Parser α} (fails : (many item).Fails text rest) :
    ∃ mid, Reaches item text mid ∧ item.Aborts mid rest :=
  manyUpTo_fails fails

end FieldGuard.Policy.Parser
