import Mathlib.Data.List.Pairwise

set_option autoImplicit false

namespace FieldGuard

variable {α β : Type} {holds other : List α → α → Prop} {list rest : List α} {first element : α}

def Never (holds : List α → α → Prop) (list : List α) : Prop :=
  ∀ before element after, list = before ++ element :: after → ¬ holds before element

def Earliest (holds : List α → α → Prop) (list : List α) (element : α) : Prop :=
  ∃ before after, list = before ++ element :: after ∧ holds before element ∧ Never holds before

theorem never_nil : Never holds [] := by
  intro before element after same
  simp at same

theorem never_cons : Never holds (first :: rest) ↔
    ¬ holds [] first ∧ Never (fun before => holds (first :: before)) rest := by
  constructor
  · intro never
    refine ⟨never [] first rest rfl, ?_⟩
    rintro before element after rfl
    exact never (first :: before) element after rfl
  · rintro ⟨now, later⟩ before element after same
    cases before with
    | nil =>
        cases same
        exact now
    | cons head before =>
        cases same
        exact later before element after rfl

theorem earliest_cons : Earliest holds (first :: rest) element ↔
    holds [] first ∧ element = first ∨
      ¬ holds [] first ∧ Earliest (fun before => holds (first :: before)) rest element := by
  constructor
  · rintro ⟨before, after, same, found, never⟩
    cases before with
    | nil =>
        cases same
        exact .inl ⟨found, rfl⟩
    | cons head before =>
        cases same
        obtain ⟨now, never⟩ := never_cons.mp never
        exact .inr ⟨now, before, after, rfl, found, never⟩
  · rintro (⟨now, rfl⟩ | ⟨now, before, after, rfl, found, never⟩)
    · exact ⟨[], rest, rfl, now, never_nil⟩
    · exact ⟨first :: before, after, rfl, found, never_cons.mpr ⟨now, never⟩⟩

theorem not_earliest_nil : ¬ Earliest holds [] element := by
  rintro ⟨before, after, same, _⟩
  simp at same

theorem earliest_or_never (holds : List α → α → Prop) (list : List α) :
    (∃ element, Earliest holds list element) ∨ Never holds list := by
  induction list generalizing holds with
  | nil => exact .inr never_nil
  | cons first rest ih =>
      by_cases now : holds [] first
      · exact .inl ⟨first, earliest_cons.mpr (.inl ⟨now, rfl⟩)⟩
      · rcases ih fun before => holds (first :: before) with ⟨element, found⟩ | never
        · exact .inl ⟨element, earliest_cons.mpr (.inr ⟨now, found⟩)⟩
        · exact .inr (never_cons.mpr ⟨now, never⟩)

theorem never_congr (same : ∀ before element after, list = before ++ element :: after →
    (holds before element ↔ other before element)) : Never holds list ↔ Never other list := by
  constructor
  · exact fun never before element after split found =>
      never before element after split ((same before element after split).mpr found)
  · exact fun never before element after split found =>
      never before element after split ((same before element after split).mp found)

theorem earliest_congr (same : ∀ before element after, list = before ++ element :: after →
    (holds before element ↔ other before element)) :
    Earliest holds list element ↔ Earliest other list element := by
  have inside {before after : List α} (split : list = before ++ element :: after) :
      Never holds before ↔ Never other before := by
    apply never_congr
    rintro earlier first between rfl
    exact same earlier first (between ++ element :: after) (by simp [split])
  constructor
  · rintro ⟨before, after, split, found, never⟩
    exact ⟨before, after, split, (same _ _ _ split).mp found, (inside split).mp never⟩
  · rintro ⟨before, after, split, found, never⟩
    exact ⟨before, after, split, (same _ _ _ split).mpr found, (inside split).mpr never⟩

theorem never_iff_pairwise {related : α → α → Prop} :
    Never (fun before element => ∃ earlier ∈ before, related earlier element) list ↔
      list.Pairwise fun earlier later => ¬ related earlier later := by
  constructor
  · intro never
    induction list with
    | nil => exact .nil
    | cons first rest ih =>
        obtain ⟨_, later⟩ := never_cons.mp never
        refine .cons ?_ (ih ?_)
        · intro element member conflict
          obtain ⟨before, after, rfl⟩ := List.append_of_mem member
          exact later before element after rfl ⟨first, by simp, conflict⟩
        · rintro before element after split ⟨earlier, member, conflict⟩
          exact later before element after split ⟨earlier, by simp [member], conflict⟩
  · rintro apart before element after rfl ⟨earlier, member, conflict⟩
    exact (List.pairwise_append.mp apart).2.2 earlier member element (by simp) conflict

theorem never_iff_forall {related : α → α → Prop} (irreflexive : ∀ element, ¬ related element element)
    (symmetric : ∀ element other, related element other → related other element) :
    Never (fun before element => ∃ earlier ∈ before, related earlier element) list ↔
      ∀ element ∈ list, ∀ other ∈ list, ¬ related element other := by
  rw [never_iff_pairwise]
  -- it does not matter which of two elements comes first
  constructor
  · intro pairwise element member other also
    have quiet : Std.Symm fun element other => ¬ related element other :=
      ⟨fun element other apart also => apart (symmetric other element also)⟩
    exact pairwise.forall_of_forall (fun element _ => irreflexive element) member also
  · intro apart
    exact List.pairwise_of_forall_mem_list apart

theorem never_or {plain : α → Prop} :
    Never (fun before element => plain element ∨ holds before element) list ↔
      (∀ element ∈ list, ¬ plain element) ∧ Never holds list := by
  constructor
  · intro never
    refine ⟨?_, fun before element after split found => never before element after split (.inr found)⟩
    intro element member found
    obtain ⟨before, after, split⟩ := List.append_of_mem member
    exact never before element after split (.inl found)
  · rintro ⟨none, never⟩ before element after rfl (found | found)
    · exact none element (by simp) found
    · exact never before element after rfl found

section

variable {select : α → Option β} {chosen : List β → β → Prop} {entry : β}

def Selected (select : α → Option β) (chosen : List β → β → Prop) (before : List α)
    (element : α) : Prop :=
  ∃ entry, select element = some entry ∧ chosen (before.filterMap select) entry

theorem selected_skip (skipped : select first = none) :
    (fun before => Selected select chosen (first :: before)) = Selected select chosen := by
  funext before element
  rw [Selected, List.filterMap_cons_none skipped, Selected]

theorem selected_keep (kept : select first = some entry) :
    (fun before => Selected select chosen (first :: before)) =
      Selected select fun before => chosen (entry :: before) := by
  funext before element
  rw [Selected, List.filterMap_cons_some kept, Selected]

theorem never_filterMap :
    Never chosen (list.filterMap select) ↔ Never (Selected select chosen) list := by
  induction list generalizing chosen with
  | nil => simp [never_nil]
  | cons first rest ih =>
      rw [never_cons]
      cases found : select first with
      | none => simp [selected_skip found, List.filterMap_cons_none found, ih, Selected, found]
      | some entry =>
          rw [selected_keep found, List.filterMap_cons_some found, never_cons, ih]
          simp [Selected, found]

theorem earliest_filterMap : Earliest chosen (list.filterMap select) entry ↔
    ∃ element, select element = some entry ∧ Earliest (Selected select chosen) list element := by
  induction list generalizing chosen with
  | nil => simp [not_earliest_nil]
  | cons first rest ih =>
      simp only [earliest_cons]
      cases found : select first with
      | none => simp [selected_skip found, List.filterMap_cons_none found, ih, Selected, found]
      | some head =>
          have now : Selected select chosen [] first ↔ chosen [] head := by simp [Selected, found]
          rw [selected_keep found, List.filterMap_cons_some found, earliest_cons, ih, now]
          constructor
          · rintro (⟨taken, rfl⟩ | ⟨passed, element, chose, earliest⟩)
            · exact ⟨first, found, .inl ⟨taken, rfl⟩⟩
            · exact ⟨element, chose, .inr ⟨passed, earliest⟩⟩
          · rintro ⟨element, chose, ⟨taken, rfl⟩ | ⟨passed, earliest⟩⟩
            · exact .inl ⟨taken, Option.some.inj (chose.symm.trans found)⟩
            · exact .inr ⟨passed, element, chose, earliest⟩

end

end FieldGuard
