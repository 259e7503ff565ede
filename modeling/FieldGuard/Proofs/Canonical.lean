import FieldGuard.Evaluation.Memo
import FieldGuard.Proofs.Spelling
import Mathlib.Data.List.Forall2
import Mathlib.Data.List.Nodup
import Mathlib.Data.List.Perm.Basic

set_option autoImplicit false

namespace FieldGuard

namespace Json

@[elab_as_elim, induction_eliminator]
theorem induct {motive : Json → Prop} (null : motive .null) (bool : ∀ value, motive (.bool value))
    (number : ∀ value, motive (.number value)) (string : ∀ value, motive (.string value))
    (array : ∀ items, (∀ item ∈ items, motive item) → motive (.array items))
    (object : ∀ entries, (∀ entry ∈ entries, motive entry.2) → motive (.object entries))
    (value : Json) : motive value :=
  @Json.rec motive (fun items => ∀ item ∈ items, motive item)
    (fun entries => ∀ entry ∈ entries, motive entry.2) (fun entry => motive entry.2)
    null bool number string array object
    (fun _ member => nomatch member)
    (fun _ _ first others _ member =>
      (List.mem_cons.mp member).elim (fun same => same ▸ first) (others _))
    (fun _ member => nomatch member)
    (fun _ _ first others _ member =>
      (List.mem_cons.mp member).elim (fun same => same ▸ first) (others _))
    (fun _ _ value => value) value

mutual

def Distinct : Json → Prop
  | .array items => DistinctAll items
  | .object entries => (entries.map Prod.fst).Nodup ∧ DistinctValues entries
  | _ => True

def DistinctAll : List Json → Prop
  | [] => True
  | item :: rest => item.Distinct ∧ DistinctAll rest

def DistinctValues : List (String × Json) → Prop
  | [] => True
  | (_, value) :: rest => value.Distinct ∧ DistinctValues rest

end

/-- Equality up to the order of entries at every depth. Numbers are alike if they are spelled
alike. -/
inductive Alike : Json → Json → Prop
  | null : Alike .null .null
  | bool (value : Bool) : Alike (.bool value) (.bool value)
  | number (a b : Number) (spelling : a.text = b.text) : Alike (.number a) (.number b)
  | string (value : String) : Alike (.string value) (.string value)
  | array (items others : List Json) (each : List.Forall₂ Alike items others) :
      Alike (.array items) (.array others)
  | object (entries others arranged : List (String × Json)) (order : arranged.Perm others)
      (keys : entries.map Prod.fst = arranged.map Prod.fst)
      (values : List.Forall₂ Alike (entries.map Prod.snd) (arranged.map Prod.snd)) :
      Alike (.object entries) (.object others)

theorem distinctAll_iff (items : List Json) : DistinctAll items ↔ ∀ item ∈ items, item.Distinct := by
  induction items with
  | nil => simp [DistinctAll]
  | cons item rest ih => simp [DistinctAll, ih]

theorem distinctValues_iff (entries : List (String × Json)) :
    DistinctValues entries ↔ ∀ entry ∈ entries, entry.2.Distinct := by
  induction entries with
  | nil => simp [DistinctValues]
  | cons entry rest ih => simp [DistinctValues, ih]

theorem sortedItems_eq_map (items : List Json) : sortedItems items = items.map sorted := by
  induction items with
  | nil => rfl
  | cons item rest ih => simp [sortedItems, ih]

theorem sortedEntries_eq_map (entries : List (String × Json)) :
    sortedEntries entries = entries.map fun entry => (entry.1, entry.2.sorted) := by
  induction entries with
  | nil => rfl
  | cons entry rest ih => simp [sortedEntries, ih]

def spelled (entry : String × Json) : String × List Char := (entry.1, entry.2.text)

theorem itemsText_congr {items others : List Json} (same : items.map text = others.map text) :
    itemsText items = itemsText others := by
  induction items generalizing others with
  | nil =>
    rw [List.map_eq_nil_iff.mp same.symm]
  | cons item rest ih =>
    obtain ⟨other, remaining, rfl, own, tail⟩ := List.map_eq_cons_iff.mp same.symm
    simp only [itemsText, own, ih tail.symm]

theorem text_array_congr {items others : List Json} (same : items.map text = others.map text) :
    (array items).text = (array others).text := by
  cases items with
  | nil => rw [List.map_eq_nil_iff.mp same.symm]
  | cons item rest =>
    obtain ⟨other, remaining, rfl, own, tail⟩ := List.map_eq_cons_iff.mp same.symm
    simp only [text, own, itemsText_congr tail.symm]

theorem entriesText_congr {entries others : List (String × Json)}
    (same : entries.map spelled = others.map spelled) :
    entriesText entries = entriesText others := by
  induction entries generalizing others with
  | nil => rw [List.map_eq_nil_iff.mp same.symm]
  | cons entry rest ih =>
    obtain ⟨other, remaining, rfl, own, tail⟩ := List.map_eq_cons_iff.mp same.symm
    simp only [spelled, Prod.mk.injEq] at own
    simp only [entriesText, own, ih tail.symm]

theorem text_object_congr {entries others : List (String × Json)}
    (same : entries.map spelled = others.map spelled) :
    (object entries).text = (object others).text := by
  cases entries with
  | nil => rw [List.map_eq_nil_iff.mp same.symm]
  | cons entry rest =>
    obtain ⟨other, remaining, rfl, own, tail⟩ := List.map_eq_cons_iff.mp same.symm
    simp only [spelled, Prod.mk.injEq] at own
    simp only [text, own, entriesText_congr tail.symm]

inductive Matches : Json → Json → Prop
  | null : Matches .null .null
  | bool (value : Bool) : Matches (.bool value) (.bool value)
  | number (a b : Number) (spelling : a.text = b.text) : Matches (.number a) (.number b)
  | string (value : String) : Matches (.string value) (.string value)
  | array (items others : List Json) (same : items.map text = others.map text) :
      Matches (.array items) (.array others)
  | object (entries others : List (String × Json)) (same : entries.map spelled = others.map spelled) :
      Matches (.object entries) (.object others)

theorem Matches.text_eq {value other : Json} (matched : value.Matches other) :
    value.text = other.text := by
  cases matched with
  | null => rfl
  | bool value => rfl
  | number a b spelling => simpa [text] using spelling
  | string value => rfl
  | array items others same => exact text_array_congr same
  | object entries others same => exact text_object_congr same

def Apart (rest : List Char) : Prop := ∀ c ∈ rest.head?, isNumeral c = false

theorem number_cancel {number other : Number} {rest remaining : List Char} (apart : Apart rest)
    (separate : Apart remaining) (same : number.text ++ rest = other.text ++ remaining) :
    number.text = other.text ∧ rest = remaining := by
  have whole (number : Number) {rest : List Char} (apart : Apart rest) :
      (number.text ++ rest).takeWhile isNumeral = number.text := by
    have nothing : rest.takeWhile isNumeral = [] := by
      cases rest with
      | nil => rfl
      | cons c rest => simp [apart c rfl]
    rw [List.takeWhile_append_of_pos number.text_numeral, nothing, List.append_nil]
  have spelling : number.text = other.text := by
    rw [← whole number apart, same, whole other separate]
  exact ⟨spelling, List.append_cancel_left (spelling ▸ same)⟩

theorem string_cancel {value other : String} {rest remaining : List Char}
    (same : stringText value ++ rest = stringText other ++ remaining) :
    value = other ∧ rest = remaining := by
  simp only [stringText, List.cons_append, List.append_assoc, List.nil_append, List.cons.injEq,
    true_and] at same
  have read := characters_escaped value.toList rest
  rw [same, characters_escaped] at read
  simp only [Except.ok.injEq, Prod.mk.injEq] at read
  exact ⟨String.toList_injective read.1.symm, read.2.symm⟩

def Cancels (value : Json) : Prop :=
  ∀ other rest remaining, Apart rest → Apart remaining →
    value.text ++ rest = other.text ++ remaining → value.Matches other ∧ rest = remaining

theorem apart_itemsText (items : List Json) (rest : List Char) : Apart (itemsText items ++ rest) := by
  cases items <;> (rintro c ⟨⟩; rfl)

theorem apart_entriesText (entries : List (String × Json)) (rest : List Char) :
    Apart (entriesText entries ++ rest) := by
  cases entries with
  | nil =>
    rintro c ⟨⟩
    rfl
  | cons entry remaining =>
    rintro c ⟨⟩
    rfl

theorem itemsText_cancel (items : List Json) (each : ∀ item ∈ items, item.Cancels)
    (others : List Json) (rest remaining : List Char)
    (same : itemsText items ++ rest = itemsText others ++ remaining) :
    items.map text = others.map text ∧ rest = remaining := by
  induction items generalizing others with
  | nil =>
    cases others with
    | nil => simpa [itemsText] using same
    | cons other others => simp [itemsText] at same
  | cons item items ih =>
    cases others with
    | nil => simp [itemsText] at same
    | cons other others =>
      simp only [itemsText, List.cons_append, List.append_assoc, List.cons.injEq, true_and] at same
      obtain ⟨matched, tail⟩ := each item List.mem_cons_self other _ _ (apart_itemsText _ _)
        (apart_itemsText _ _) same
      obtain ⟨texts, ends⟩ := ih (fun other member => each other (List.mem_cons_of_mem _ member))
        others tail
      exact ⟨by rw [List.map_cons, List.map_cons, matched.text_eq, texts], ends⟩

theorem entriesText_cancel (entries : List (String × Json))
    (each : ∀ entry ∈ entries, entry.2.Cancels) (others : List (String × Json))
    (rest remaining : List Char)
    (same : entriesText entries ++ rest = entriesText others ++ remaining) :
    entries.map spelled = others.map spelled ∧ rest = remaining := by
  induction entries generalizing others with
  | nil =>
    cases others with
    | nil => simpa [entriesText] using same
    | cons other others => simp [entriesText] at same
  | cons entry entries ih =>
    cases others with
    | nil => simp [entriesText] at same
    | cons other others =>
      simp only [entriesText, List.cons_append, List.append_assoc, List.cons.injEq, true_and] at same
      obtain ⟨key, value⟩ := string_cancel same
      obtain ⟨matched, tail⟩ := each entry List.mem_cons_self other.2 _ _ (apart_entriesText _ _)
        (apart_entriesText _ _) (List.cons.inj value).2
      obtain ⟨texts, ends⟩ := ih (fun other member => each other (List.mem_cons_of_mem _ member))
        others tail
      refine ⟨?_, ends⟩
      rw [List.map_cons, List.map_cons, texts, spelled, spelled, key, matched.text_eq]

inductive Kind where
  | null
  | bool (value : Bool)
  | number
  | string
  | array
  | object

def kind : Json → Kind
  | .null => .null
  | .bool value => .bool value
  | .number _ => .number
  | .string _ => .string
  | .array _ => .array
  | .object _ => .object

def Kind.ofInitial (c : Char) : Option Kind :=
  if c = 'n' then some .null
  else if c = 't' then some (.bool true)
  else if c = 'f' then some (.bool false)
  else if c = '"' then some .string
  else if c = '[' then some .array
  else if c = '\x7b' then some .object
  else if isNumeral c then some .number
  else none

theorem Kind.ofInitial_numeral (c : Char) (numeral : isNumeral c = true) :
    ofInitial c = some .number := by
  unfold ofInitial
  split_ifs
  all_goals first | rfl | (subst c; exact absurd numeral (by decide))

theorem text_initial (value : Json) :
    ∃ c rest, value.text = c :: rest ∧ Kind.ofInitial c = some value.kind := by
  cases value with
  | null => exact ⟨_, _, rfl, rfl⟩
  | bool value => cases value <;> exact ⟨_, _, rfl, rfl⟩
  | number value =>
    obtain ⟨c, rest, same⟩ := List.exists_cons_of_ne_nil value.text_ne_nil
    exact ⟨c, rest, by simpa [text] using same,
      Kind.ofInitial_numeral c (value.text_numeral c (same ▸ List.mem_cons_self))⟩
  | string value => exact ⟨_, _, rfl, rfl⟩
  | array items => cases items <;> exact ⟨_, _, rfl, rfl⟩
  | object entries =>
    cases entries with
    | nil => exact ⟨_, _, rfl, rfl⟩
    | cons entry rest => exact ⟨_, _, rfl, rfl⟩

theorem kind_eq {value other : Json} {rest remaining : List Char}
    (same : value.text ++ rest = other.text ++ remaining) : value.kind = other.kind := by
  obtain ⟨c, tail, spelling, initial⟩ := value.text_initial
  obtain ⟨d, others, respelling, reinitial⟩ := other.text_initial
  rw [spelling, respelling] at same
  obtain ⟨rfl, _⟩ := List.cons.inj same
  exact Option.some.inj (initial.symm.trans reinitial)

theorem close_ne_text {value : Json} {rest remaining : List Char} :
    ']' :: rest ≠ value.text ++ remaining := by
  intro same
  obtain ⟨c, tail, spelling, initial⟩ := value.text_initial
  rw [spelling] at same
  obtain ⟨rfl, _⟩ := List.cons.inj same
  cases initial

theorem cancels_array {items : List Json} (each : ∀ item ∈ items, item.Cancels) :
    (array items).Cancels := by
  intro other rest remaining apart separate same
  have kind := kind_eq same
  cases other with
  | array others =>
    cases items with
    | nil =>
      cases others with
      | nil => exact ⟨.array [] [] rfl, by simpa [text] using same⟩
      | cons other others =>
        simp only [text, List.cons_append, List.append_assoc, List.cons.injEq, true_and] at same
        exact absurd same close_ne_text
    | cons item items =>
      cases others with
      | nil =>
        simp only [text, List.cons_append, List.append_assoc, List.cons.injEq, true_and] at same
        exact absurd same.symm close_ne_text
      | cons other others =>
        simp only [text, List.cons_append, List.append_assoc, List.cons.injEq, true_and] at same
        -- with a comma in front, the items are those of a list
        have listed : itemsText (item :: items) ++ rest = itemsText (other :: others) ++ remaining := by
          simpa only [itemsText, List.cons_append, List.append_assoc] using congrArg (',' :: ·) same
        obtain ⟨texts, ends⟩ := itemsText_cancel (item :: items) each (other :: others) _ _ listed
        exact ⟨.array _ _ texts, ends⟩
  | _ => cases kind

theorem cancels_object {entries : List (String × Json)} (each : ∀ entry ∈ entries, entry.2.Cancels) :
    (object entries).Cancels := by
  intro other rest remaining apart separate same
  have kind := kind_eq same
  cases other with
  | object others =>
    cases entries with
    | nil =>
      cases others with
      | nil => exact ⟨.object [] [] rfl, by simpa [text] using same⟩
      | cons other others => simp [text, stringText] at same
    | cons entry entries =>
      cases others with
      | nil => simp [text, stringText] at same
      | cons other others =>
        simp only [text, List.cons_append, List.append_assoc, List.cons.injEq, true_and] at same
        -- with a comma in front, the entries are those of a list
        have listed : entriesText (entry :: entries) ++ rest = entriesText (other :: others) ++ remaining := by
          simpa only [entriesText, List.cons_append, List.append_assoc] using congrArg (',' :: ·) same
        obtain ⟨texts, ends⟩ := entriesText_cancel (entry :: entries) each (other :: others) _ _ listed
        exact ⟨.object _ _ texts, ends⟩
  | _ => cases kind

theorem text_cancel (value : Json) : value.Cancels := by
  -- texts that agree begin alike, so the values are of one kind
  induction value with
  | array items each => exact cancels_array each
  | null =>
    intro other rest remaining _ _ same
    have kind := kind_eq same
    cases other with
    | null => exact ⟨.null, List.append_cancel_left same⟩
    | _ => cases kind
  | bool value =>
    intro other rest remaining _ _ same
    have kind := kind_eq same
    cases other with
    | bool other =>
      cases kind
      exact ⟨.bool value, List.append_cancel_left same⟩
    | _ => cases kind
  | number value =>
    intro other rest remaining apart separate same
    have kind := kind_eq same
    cases other with
    | number other =>
      simp only [text] at same
      obtain ⟨spelling, tail⟩ := number_cancel apart separate same
      exact ⟨.number value other spelling, tail⟩
    | _ => cases kind
  | string value =>
    intro other rest remaining _ _ same
    have kind := kind_eq same
    cases other with
    | string other =>
      simp only [text] at same
      obtain ⟨rfl, tail⟩ := string_cancel same
      exact ⟨.string value, tail⟩
    | _ => cases kind
  | object entries each => exact cancels_object each

def canonical (entry : String × Json) : String × List Char := (entry.1, entry.2.sorted.text)

def keyBefore (a b : String × List Char) : Bool := a.1 ≤ b.1

theorem spelled_sorted (entries : List (String × Json)) :
    ((sortedEntries entries).mergeSort entryBefore).map spelled =
      (entries.map canonical).mergeSort keyBefore := by
  have spelledAlone : ((sortedEntries entries).mergeSort entryBefore).map spelled =
      ((sortedEntries entries).map spelled).mergeSort keyBefore :=
    List.map_mergeSort fun _ _ _ _ => rfl
  rw [spelledAlone, sortedEntries_eq_map, List.map_map]
  rfl

theorem pairwise_keys (entries : List (String × List Char)) :
    (entries.mergeSort keyBefore).Pairwise fun a b => keyBefore a b = true := by
  apply List.pairwise_mergeSort
  · intro a b c first second
    simp only [keyBefore, decide_eq_true_iff] at first second ⊢
    exact String.le_trans first second
  · intro a b
    simpa [keyBefore] using String.le_total a.1 b.1

theorem mergeSort_congr {entries others : List (String × List Char)} (order : entries.Perm others)
    (distinct : (others.map Prod.fst).Nodup) :
    entries.mergeSort keyBefore = others.mergeSort keyBefore := by
  have arranged := (List.mergeSort_perm entries keyBefore).trans
    (order.trans (List.mergeSort_perm others keyBefore).symm)
  refine arranged.eq_of_pairwise ?_ (pairwise_keys entries) (pairwise_keys others)
  intro a b member found first second
  simp only [keyBefore, decide_eq_true_iff] at first second
  have inside : a ∈ others := order.mem_iff.mp (List.mem_mergeSort.mp member)
  exact List.inj_on_of_nodup_map distinct inside (List.mem_mergeSort.mp found)
    (String.le_antisymm first second)

theorem map_canonical (entries : List (String × Json)) :
    entries.map canonical =
      (entries.map Prod.fst).zip ((entries.map Prod.snd).map fun value => value.sorted.text) := by
  induction entries with
  | nil => rfl
  | cons entry rest ih => simp [ih, canonical]

theorem sorted_texts {items others : List Json} (alike : List.Forall₂ Alike items others)
    (each : ∀ item ∈ items, ∀ other ∈ others, item.Alike other → item.sorted.text = other.sorted.text) :
    items.map (fun item => item.sorted.text) = others.map fun item => item.sorted.text := by
  induction alike with
  | nil => rfl
  | @cons item other items others own rest ih =>
    have tail := ih fun a inside b among => each a (List.mem_cons_of_mem _ inside) b
      (List.mem_cons_of_mem _ among)
    rw [List.map_cons, List.map_cons, tail, each item List.mem_cons_self other List.mem_cons_self own]

theorem text_sorted_of_alike {value other : Json} (distinct : value.Distinct)
    (clear : other.Distinct) (alike : value.Alike other) : value.sorted.text = other.sorted.text := by
  induction value generalizing other with
  | null =>
    cases alike
    rfl
  | bool value =>
    cases alike
    rfl
  | string value =>
    cases alike
    rfl
  | number value =>
    cases alike with
    | number _ other spelling => simpa [sorted, text] using spelling
  | array items ih =>
    cases alike with
    | array _ others each =>
      rw [Distinct, distinctAll_iff] at distinct clear
      apply text_array_congr
      simp only [sortedItems_eq_map, List.map_map]
      exact sorted_texts each fun item member other found =>
        ih item member (distinct item member) (clear other found)
  | object entries ih =>
    cases alike with
    | object _ others arranged order keys values =>
      rw [Distinct, distinctValues_iff] at distinct clear
      have texts := sorted_texts values fun item member other found => by
        obtain ⟨entry, inside, rfl⟩ := List.mem_map.mp member
        obtain ⟨another, among, rfl⟩ := List.mem_map.mp found
        exact ih entry inside (distinct.2 entry inside) (clear.2 another (order.mem_iff.mp among))
      -- the two list the same entries, and sorting leaves them in one order
      have same : entries.map canonical = arranged.map canonical := by
        rw [map_canonical, map_canonical, keys, texts]
      apply text_object_congr
      rw [spelled_sorted, spelled_sorted, same]
      apply mergeSort_congr (order.map canonical)
      rw [List.map_map]
      exact clear.1

theorem matches_of_text {value other : Json} (same : value.text = other.text) : value.Matches other := by
  have nothing : Apart [] := fun _ member => nomatch member
  exact (text_cancel value other [] [] nothing nothing (by rw [same])).1

theorem alike_of_texts {items others : List Json}
    (each : ∀ item ∈ items, ∀ other, item.sorted.text = other.sorted.text → item.Alike other)
    (same : items.map (fun item => item.sorted.text) = others.map fun item => item.sorted.text) :
    List.Forall₂ Alike items others := by
  induction items generalizing others with
  | nil =>
    rw [List.map_eq_nil_iff.mp same.symm]
    exact .nil
  | cons item items ih =>
    obtain ⟨other, remaining, rfl, own, tail⟩ := List.map_eq_cons_iff.mp same.symm
    exact .cons (each item List.mem_cons_self other own.symm)
      (ih (fun item member => each item (List.mem_cons_of_mem _ member)) tail.symm)

theorem alike_of_text_sorted {value other : Json} (same : value.sorted.text = other.sorted.text) :
    value.Alike other := by
  have matched := matches_of_text same
  induction value generalizing other with
  | null =>
    cases other <;> cases matched
    exact .null
  | bool value =>
    cases other <;> cases matched
    exact .bool value
  | string value =>
    cases other <;> cases matched
    exact .string value
  | number value =>
    cases other with
    | number other =>
      cases matched with
      | number _ _ spelling => exact .number value other spelling
    | _ => cases matched
  | array items ih =>
    cases other with
    | array others =>
      cases matched with
      | array _ _ texts =>
        simp only [sortedItems_eq_map, List.map_map] at texts
        exact .array items others (alike_of_texts (fun item member other same =>
          ih item member same (matches_of_text same)) texts)
    | _ => cases matched
  | object entries ih =>
    cases other with
    | object others =>
      cases matched with
      | object _ _ texts =>
        rw [spelled_sorted, spelled_sorted] at texts
        have order : (entries.map canonical).Perm (others.map canonical) :=
          (List.mergeSort_perm _ keyBefore).symm.trans (texts ▸ List.mergeSort_perm _ keyBefore)
        have known : List.Forall₂ (fun a b => a = canonical b) (others.map canonical) others :=
          List.forall₂_map_right_iff.mp (List.forall₂_same.mpr fun _ _ => rfl)
        -- the other entries, in the order of those that spell the same
        obtain ⟨arranged, each, arrangement⟩ := List.perm_comp_forall₂ order known
        have same : entries.map canonical = arranged.map canonical := by
          rw [← List.forall₂_eq_eq_eq]
          exact List.forall₂_map_right_iff.mpr each
        refine .object entries others arranged arrangement ?_ (alike_of_texts ?_ ?_)
        · simpa [Function.comp_def, canonical] using congrArg (List.map Prod.fst) same
        · intro value member other same
          obtain ⟨entry, inside, rfl⟩ := List.mem_map.mp member
          exact ih entry inside same (matches_of_text same)
        · simpa [Function.comp_def, canonical] using congrArg (List.map Prod.snd) same
    | _ => cases matched

theorem text_sorted_eq_iff {value other : Json} (distinct : value.Distinct) (clear : other.Distinct) :
    value.sorted.text = other.sorted.text ↔ value.Alike other :=
  ⟨alike_of_text_sorted, text_sorted_of_alike distinct clear⟩

end Json

theorem strictInput_inj (parent args other others : Json) :
    strictInput parent args = strictInput other others ↔
      parent.sorted.text = other.sorted.text ∧ args.sorted.text = others.sorted.text := by
  constructor
  · intro same
    -- the separator does not go on with the text of a parent
    have separate (rest : List Char) : Json.Apart ('\x1e' :: rest) := by
      rintro c ⟨⟩
      rfl
    obtain ⟨matched, tail⟩ :=
      Json.text_cancel parent.sorted other.sorted _ _ (separate _) (separate _) same
    exact ⟨matched.text_eq, (List.cons.inj tail).2⟩
  · rintro ⟨first, second⟩
    rw [strictInput, strictInput, first, second]

def strictBytes (parent args : Json) : ByteArray := (String.ofList (strictInput parent args)).toUTF8

/-- Strict keys are the same if and only if rule and request are, and parents and arguments are alike
but for the order of their entries. Numbers are alike as they are spelled, so an integer is not like
a float, nor a zero like its negative. -/
theorem strictBytes_eq_iff (parent args other others : Json)
    (distinct : parent.Distinct ∧ args.Distinct) (clear : other.Distinct ∧ others.Distinct) :
    (strictBytes parent args = strictBytes other others ↔ parent.Alike other ∧ args.Alike others) ∧
      (∀ rule rule' request request' site site',
        Key.of? .strict rule request ⟨site, parent, args⟩ =
            Key.of? .strict rule' request' ⟨site', other, others⟩ ↔
          rule = rule' ∧ request = request' ∧ parent.Alike other ∧ args.Alike others) ∧
      (∀ whole value, ¬ (Json.number (.int whole)).Alike (.number (.float value))) ∧
      ∀ significand exponent, ¬ (Json.number (.float ⟨true, significand, exponent⟩)).Alike
        (.number (.float ⟨false, significand, exponent⟩)) := by
  have streams : strictInput parent args = strictInput other others ↔
      parent.Alike other ∧ args.Alike others := by
    rw [strictInput_inj, Json.text_sorted_eq_iff distinct.1 clear.1,
      Json.text_sorted_eq_iff distinct.2 clear.2]
  refine ⟨?_, ?_, ?_, ?_⟩
  · rw [← streams, strictBytes, strictBytes]
    constructor
    · exact fun same => String.ofList_injective (String.toByteArray_inj.mp same)
    · exact fun same => by rw [same]
  · intro rule rule' request request' site site'
    simp only [Key.of?, Option.some.injEq, Key.mk.injEq, streams]
    constructor
    · rintro ⟨rfl, rfl, alike⟩
      exact ⟨rfl, rfl, alike⟩
    · rintro ⟨rfl, rfl, alike⟩
      exact ⟨rfl, rfl, alike⟩
  · intro whole value alike
    cases alike with
    | number _ _ spelling => exact Number.text_int_ne_float whole value spelling
  · intro significand exponent alike
    cases alike with
    | number _ _ spelling => exact Binary64.text_negative significand exponent spelling

theorem strictBytes_eq_reordered :
    let parent := Json.object [("id", .nat 1), ("kind", .string "draft")]
    let other := Json.object [("kind", .string "draft"), ("id", .nat 1)]
    (parent.Distinct ∧ Json.null.Distinct) ∧ (other.Distinct ∧ Json.null.Distinct) ∧
      strictBytes parent .null = strictBytes other .null := by
  intro parent other
  have distinct : parent.Distinct := ⟨by decide, trivial, trivial, trivial⟩
  have clear : other.Distinct := ⟨by decide, trivial, trivial, trivial⟩
  have alike : parent.Alike other :=
    .object _ _ [("id", .nat 1), ("kind", .string "draft")] (.swap _ _ []) rfl
      (.cons (.number _ _ rfl) (.cons (.string _) .nil))
  exact ⟨⟨distinct, trivial⟩, ⟨clear, trivial⟩,
    (strictBytes_eq_iff parent .null other .null ⟨distinct, trivial⟩ ⟨clear, trivial⟩).1.mpr
      ⟨alike, .null⟩⟩

end FieldGuard
