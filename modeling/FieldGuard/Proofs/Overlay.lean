import FieldGuard.Proofs.Tokens
import Mathlib.Data.List.Perm.Subperm

set_option autoImplicit false

namespace FieldGuard.Options

open Json

namespace Key

def all : List Key := [.onDeny, .precedence, .denialMessage, .failureMessage]

def Value : Key → Type
  | .onDeny => OnDeny
  | .precedence => Precedence
  | .denialMessage | .failureMessage => String

def Spelled : (key : Key) → key.Value → List Token → Prop
  | .onDeny => OnDeny.names.Spelled
  | .precedence => Precedence.names.Spelled
  | .denialMessage | .failureMessage => fun value tokens => tokens = [.string value]

inductive Member (key : Key) (value : key.Value) : List Token → Prop
  | titled {name : String} {tokens : List Token} : (name, key) ∈ Key.names →
      key.Spelled value tokens → Member key value (.string name :: .mark ':' :: tokens)

def reader : (key : Key) → Reader key.Value
  | .onDeny => OnDeny.names.read
  | .precedence => Precedence.names.read
  | .denialMessage | .failureMessage => stringValue

theorem reader_recognizes (key : Key) : Recognizes key.reader key.Spelled := by
  cases key with
  | onDeny =>
      have distinct : OnDeny.names.Distinct := by decide
      exact Names.read_recognizes distinct
  | precedence =>
      have distinct : Precedence.names.Distinct := by decide
      exact Names.read_recognizes distinct
  | denialMessage | failureMessage => exact stringValue_recognizes

theorem mem_all (key : Key) : key ∈ all := by cases key <;> simp [all]

end Key

def get (options : Options) : (key : Key) → key.Value
  | .onDeny => options.onDeny
  | .precedence => options.precedence
  | .denialMessage => options.denialMessage
  | .failureMessage => options.failureMessage

def put (options : Options) : (key : Key) → key.Value → Options
  | .onDeny, value => { options with onDeny := value }
  | .precedence, value => { options with precedence := value }
  | .denialMessage, value => { options with denialMessage := value }
  | .failureMessage, value => { options with failureMessage := value }

/-- A part for each of the keys, in their order, gives its value; the others keep theirs. -/
structure Overlays (Part : (key : Key) → key.Value → List Token → Prop) (options final : Options)
    (keys : List Key) (parts : List (List Token)) : Prop where
  given : List.Forall₂ (fun key => Part key (final.get key)) keys parts
  kept : ∀ key, key ∉ keys → final.get key = options.get key

def continued (parts : List (List Token)) : List Token := parts.flatMap (.mark ',' :: ·)

def listed : List (List Token) → List Token
  | [] => []
  | part :: parts => part ++ continued parts

inductive Spelled (options : Options) : List Token → Prop
  | object {keys : List Key} {members : List (List Token)} :
      keys.Nodup → Overlays Key.Member standard options keys members →
        Spelled options (.mark '\x7b' :: (listed members ++ [.mark '\x7d']))
  | array {keys : List Key} {values : List (List Token)} :
      keys <+: Key.all → Overlays Key.Spelled standard options keys values →
        Spelled options (.mark '[' :: (listed values ++ [.mark ']']))

/-! ### Values put in their places -/

theorem eq_of_get {first second : Options} (same : ∀ key, first.get key = second.get key) :
    first = second := by
  obtain ⟨onDeny, precedence, denial, failure⟩ := first
  obtain ⟨onDeny', precedence', denial', failure'⟩ := second
  have := same .onDeny
  have := same .precedence
  have := same .denialMessage
  have := same .failureMessage
  simp_all [get]

theorem get_put (options : Options) (key : Key) (value : key.Value) :
    (options.put key value).get key = value := by
  cases key <;> rfl

theorem get_put_of_ne (options : Options) {key other : Key} (value : key.Value)
    (different : other ≠ key) : (options.put key value).get other = options.get other := by
  cases key <;> cases other <;> first | rfl | exact absurd rfl different

section

variable {Part : (key : Key) → key.Value → List Token → Prop} {options final : Options} {key : Key}
  {keys : List Key} {part : List Token} {parts : List (List Token)} {text rest : List Char}
  {later : List Char} {close : Char}

theorem overlays_nil : Overlays Part options final [] parts ↔ final = options ∧ parts = [] := by
  constructor
  · rintro ⟨⟨⟩, kept⟩
    exact ⟨eq_of_get fun key => kept key (by simp), rfl⟩
  · rintro ⟨rfl, rfl⟩
    exact ⟨.nil, fun _ _ => rfl⟩

theorem overlays_cons (fresh : key ∉ keys) :
    Overlays Part options final (key :: keys) parts ↔ ∃ value part others, parts = part :: others ∧
      Part key value part ∧ Overlays Part (options.put key value) final keys others := by
  constructor
  · rintro ⟨given, kept⟩
    obtain ⟨part, parts, first, others, rfl⟩ := List.forall₂_cons_left_iff.mp given
    refine ⟨final.get key, part, parts, rfl, first, others, fun other absent => ?_⟩
    by_cases same : other = key
    · rw [same, get_put]
    · rw [get_put_of_ne options _ same]
      exact kept other (by simp [same, absent])
  · rintro ⟨value, part, parts, rfl, first, others, kept⟩
    -- no later part is for the key, so the value put there stays
    have own : final.get key = value := (kept key fresh).trans (get_put options key value)
    refine ⟨.cons (own ▸ first) others, fun other absent => ?_⟩
    obtain ⟨different, absent⟩ := not_or.mp (mt List.mem_cons.mpr absent)
    rw [kept other absent, get_put_of_ne options _ different]

theorem Overlays.exists_part (overlays : Overlays Part options final (key :: keys) parts) :
    ∃ part others, parts = part :: others ∧ Part key (final.get key) part := by
  obtain ⟨part, others, first, _, rfl⟩ := List.forall₂_cons_left_iff.mp overlays.given
  exact ⟨part, others, rfl, first⟩

/-! ### Lists of parts in a text -/

def Continues (Part : (key : Key) → key.Value → List Token → Prop) (close : Char)
    (options : Options) (text : List Char) (keys : List Key) (final : Options)
    (rest : List Char) : Prop :=
  ∃ parts, Overlays Part options final keys parts ∧
    Reads text (continued parts ++ [.mark close]) rest

def Lists (Part : (key : Key) → key.Value → List Token → Prop) (close : Char)
    (options : Options) (text : List Char) (keys : List Key) (final : Options)
    (rest : List Char) : Prop :=
  ∃ parts, Overlays Part options final keys parts ∧
    Reads text (listed parts ++ [.mark close]) rest

def Apart (Part : (key : Key) → key.Value → List Token → Prop) (close : Char) : Prop :=
  ∀ key value part, Part key value part →
    ∃ first others, part = first :: others ∧ first.initial ≠ close

theorem reads_continued {tokens : List Token} :
    Reads text (continued (part :: parts) ++ tokens) rest ↔
      ∃ later, afterSpace text = ',' :: later ∧
        Reads later (listed (part :: parts) ++ tokens) rest := by
  have split : continued (part :: parts) ++ tokens =
      .mark ',' :: (listed (part :: parts) ++ tokens) := by simp [continued, listed]
  rw [split, reads_mark_cons (by decide)]

theorem continues_nil (own : close ∈ marks) :
    Continues Part close options text [] final rest ↔
      final = options ∧ afterSpace text = close :: rest := by
  simp [Continues, overlays_nil, continued, reads_mark own]

theorem continues_cons :
    Continues Part close options text (key :: keys) final rest ↔
      ∃ later, afterSpace text = ',' :: later ∧
        Lists Part close options later (key :: keys) final rest := by
  constructor
  · rintro ⟨_, overlays, reads⟩
    obtain ⟨part, parts, rfl, _⟩ := overlays.exists_part
    obtain ⟨later, found, reads⟩ := reads_continued.mp reads
    exact ⟨later, found, _, overlays, reads⟩
  · rintro ⟨later, found, _, overlays, reads⟩
    obtain ⟨part, parts, rfl, _⟩ := overlays.exists_part
    exact ⟨_, overlays, reads_continued.mpr ⟨later, found, reads⟩⟩

theorem lists_nil (own : close ∈ marks) :
    Lists Part close options text [] final rest ↔
      final = options ∧ afterSpace text = close :: rest := by
  simp [Lists, overlays_nil, listed, reads_mark own]

theorem lists_cons (fresh : key ∉ keys) :
    Lists Part close options text (key :: keys) final rest ↔ ∃ value part mid, Part key value part ∧
      Reads text part mid ∧ Continues Part close (options.put key value) mid keys final rest := by
  simp only [Lists, overlays_cons fresh, Continues]
  constructor
  · rintro ⟨_, ⟨value, part, parts, rfl, first, others⟩, reads⟩
    rw [listed, List.append_assoc] at reads
    obtain ⟨mid, reads, left⟩ := Reads.append_iff.mp reads
    exact ⟨value, part, mid, first, reads, parts, others, left⟩
  · rintro ⟨value, part, mid, first, reads, parts, others, left⟩
    refine ⟨part :: parts, ⟨value, part, parts, rfl, first, others⟩, ?_⟩
    rw [listed, List.append_assoc]
    exact Reads.append_iff.mpr ⟨mid, reads, left⟩

theorem continues_close (own : close ∈ marks) (other : close ≠ ',')
    (found : afterSpace text = close :: later) :
    Continues Part close options text keys final rest ↔
      keys = [] ∧ final = options ∧ later = rest := by
  cases keys <;> simp [continues_nil own, continues_cons, found, other]

theorem continues_comma (own : close ∈ marks) (other : close ≠ ',')
    (found : afterSpace text = ',' :: later) :
    Continues Part close options text keys final rest ↔
      keys ≠ [] ∧ Lists Part close options later keys final rest := by
  cases keys <;> simp [continues_nil own, continues_cons, found, other.symm]

theorem not_continues (own : close ∈ marks) (notClose : ∀ later, afterSpace text ≠ close :: later)
    (notComma : ∀ later, afterSpace text ≠ ',' :: later) :
    ¬ Continues Part close options text keys final rest := by
  cases keys <;> simp [continues_nil own, continues_cons, notClose, notComma]

theorem lists_close (own : close ∈ marks) (apart : Apart Part close)
    (found : afterSpace text = close :: later) :
    Lists Part close options text keys final rest ↔
      keys = [] ∧ final = options ∧ later = rest := by
  cases keys with
  | nil => simp [lists_nil own, found]
  | cons key keys =>
      simp only [reduceCtorEq, false_and, iff_false]
      rintro ⟨_, overlays, reads⟩
      obtain ⟨_, parts, rfl, first⟩ := overlays.exists_part
      obtain ⟨token, tokens, rfl, different⟩ := apart _ _ _ first
      obtain ⟨_, again⟩ := reads.starts
      exact different (List.head_eq_of_cons_eq (again.symm.trans found))

theorem lists_part (own : close ∈ marks) (apart : Apart Part close)
    (notClose : ∀ later, afterSpace text ≠ close :: later) :
    Lists Part close options text keys final rest ↔
      keys ≠ [] ∧ Lists Part close options (afterSpace text) keys final rest := by
  cases keys with
  | nil => simp [lists_nil own, notClose]
  | cons key keys =>
      simp only [ne_eq, reduceCtorEq, not_false_eq_true, true_and]
      constructor
      all_goals
        rintro ⟨_, overlays, reads⟩
        obtain ⟨_, parts, rfl, first⟩ := overlays.exists_part
        obtain ⟨token, tokens, rfl, _⟩ := apart _ _ _ first
      · exact ⟨_, overlays, reads_afterSpace.mpr reads⟩
      · exact ⟨_, overlays, reads_afterSpace.mp reads⟩

/-! ### What the readers of options recognize -/

theorem set_eq (options : Options) (key : Key) (text : List Char) :
    options.set key text = do
      let (value, rest) ← key.reader text
      return (options.put key value, rest) := by
  cases key <;> rfl

theorem set_eq_ok :
    options.set key text = .ok (final, rest) ↔ ∃ value part, final = options.put key value ∧
      key.Spelled value part ∧ Reads text part rest := by
  simp only [set_eq, bind_eq_ok, Prod.exists, key.reader_recognizes _ _ _, pure_eq_ok,
    Prod.mk.injEq]
  constructor
  · rintro ⟨value, rest, ⟨part, spelled, reads⟩, rfl, rfl⟩
    exact ⟨value, part, rfl, spelled, reads⟩
  · rintro ⟨value, part, rfl, spelled, reads⟩
    exact ⟨value, rest, ⟨part, spelled, reads⟩, rfl, rfl⟩

theorem memberKey_eq_ok {seen : List Key} {name : String} :
    memberKey seen name = .ok key ↔ (name, key) ∈ Key.names ∧ key ∉ seen := by
  have distinct : Key.names.Distinct := by decide
  rw [← Names.lookup_eq_some distinct, memberKey]
  cases Key.names.lookup name with
  | none => simp
  | some found =>
      dsimp only
      split <;> grind

theorem member_eq_ok {seen : List Key} :
    options.member seen text = .ok ((key, final), rest) ↔ key ∉ seen ∧ ∃ value part,
      final = options.put key value ∧ key.Member value part ∧ Reads text part rest := by
  rw [member]
  split
  next body found =>
    simp only [bind_eq_ok, Prod.exists, memberKey_eq_ok, colon_eq_ok, set_eq_ok, pure_eq_ok,
      Prod.mk.injEq]
    constructor
    · rintro ⟨name, mid, quoted, _, ⟨listed, fresh⟩, later, colon, _, _,
        ⟨value, part, rfl, spelled, reads⟩, ⟨rfl, rfl⟩, rfl⟩
      have titled : Reads text [.string name] mid := reads_string.mpr ⟨body, found, quoted⟩
      exact ⟨fresh, value, _, rfl, .titled listed spelled,
        Reads.cons_iff.mpr ⟨mid, titled, Reads.cons_iff.mpr ⟨later, colon, reads⟩⟩⟩
    · rintro ⟨fresh, value, _, rfl, ⟨listed, spelled⟩, reads⟩
      obtain ⟨mid, titled, reads⟩ := Reads.cons_iff.mp reads
      obtain ⟨later, colon, reads⟩ := Reads.cons_iff.mp reads
      obtain ⟨_, again, quoted⟩ := reads_string.mp titled
      cases found.symm.trans again
      exact ⟨_, mid, quoted, key, ⟨listed, fresh⟩, later, colon, _, _,
        ⟨value, _, rfl, spelled, reads⟩, ⟨rfl, rfl⟩, rfl⟩
  next other =>
    constructor
    · rintro ⟨⟩
    · rintro ⟨_, value, _, _, ⟨_, _⟩, reads⟩
      obtain ⟨_, found⟩ := reads.starts
      exact absurd found (other _)

theorem member_apart : Apart Key.Member '\x7d' := by
  rintro key value _ ⟨_, _⟩
  exact ⟨_, _, rfl, by simp [Token.initial]⟩

theorem spelled_apart : Apart Key.Spelled ']' := by
  intro key value tokens spelled
  cases key with
  | onDeny | precedence => rcases spelled with listed | listed <;> simp [Token.initial]
  | denialMessage | failureMessage => exact ⟨_, [], spelled, by simp [Token.initial]⟩

theorem moreMembers_eq_ok {count : Nat} {seen : List Key} :
    options.moreMembers count seen text = .ok (final, rest) ↔ ∃ keys, keys.Nodup ∧
      (∀ key ∈ keys, key ∉ seen) ∧ keys.length < count ∧
      Continues Key.Member '\x7d' options text keys final rest := by
  have own : '\x7d' ∈ marks := by decide
  have other : '\x7d' ≠ ',' := by decide
  induction count generalizing options seen text with
  | zero => simp [moreMembers]
  | succ count ih =>
      rw [moreMembers]
      split
      next later found => simp [continues_close own other found, eq_comm]
      next later found =>
        simp only [bind_eq_ok, Prod.exists, member_eq_ok, ih, continues_comma own other found]
        constructor
        · rintro ⟨key, _, mid, ⟨fresh, value, part, rfl, spelled, reads⟩, keys, distinct, apart,
            short, continues⟩
          have absent : key ∉ keys := fun member => by simpa using apart key member
          refine ⟨key :: keys, List.nodup_cons.mpr ⟨absent, distinct⟩, ?_, by simpa using short,
            by simp, (lists_cons absent).mpr ⟨value, part, mid, spelled, reads, continues⟩⟩
          grind
        · rintro ⟨keys, distinct, apart, short, filled, lists⟩
          obtain ⟨key, keys, rfl⟩ := List.exists_cons_of_ne_nil filled
          obtain ⟨absent, others⟩ := List.nodup_cons.mp distinct
          obtain ⟨value, part, mid, spelled, reads, continues⟩ := (lists_cons absent).mp lists
          refine ⟨key, _, mid, ⟨apart key (by simp), value, part, rfl, spelled, reads⟩, keys,
            others, ?_, by simpa using short, continues⟩
          grind
      next notClose notComma => simpa using fun keys _ _ _ => not_continues own notClose notComma

theorem moreElements_eq_ok (distinct : keys.Nodup) :
    moreElements keys options text = .ok (final, rest) ↔ ∃ given, given <+: keys ∧
      Continues Key.Spelled ']' options text given final rest := by
  have own : ']' ∈ marks := by decide
  have other : ']' ≠ ',' := by decide
  induction keys generalizing options text with
  | nil =>
      simp only [List.prefix_nil, exists_eq_left, continues_nil own]
      rw [moreElements]
      split
      next later found => simp [found, eq_comm]
      next other => simpa using fun _ => other rest
  | cons key keys ih =>
      obtain ⟨absent, others⟩ := List.nodup_cons.mp distinct
      rw [moreElements]
      split
      next later found => simp [continues_close own other found, eq_comm]
      next later found =>
        simp only [bind_eq_ok, Prod.exists, set_eq_ok, ih others, continues_comma own other found]
        constructor
        · rintro ⟨_, mid, ⟨value, part, rfl, spelled, reads⟩, given, initial, continues⟩
          have fresh : key ∉ given := fun member => absent (initial.subset member)
          exact ⟨key :: given, List.cons_prefix_cons.mpr ⟨rfl, initial⟩, by simp,
            (lists_cons fresh).mpr ⟨value, part, mid, spelled, reads, continues⟩⟩
        · rintro ⟨given, whole, filled, lists⟩
          obtain ⟨first, given, rfl⟩ := List.exists_cons_of_ne_nil filled
          obtain ⟨rfl, initial⟩ := List.cons_prefix_cons.mp whole
          have fresh : first ∉ given := fun member => absent (initial.subset member)
          obtain ⟨value, part, mid, spelled, reads, continues⟩ := (lists_cons fresh).mp lists
          exact ⟨_, mid, ⟨value, part, rfl, spelled, reads⟩, given, initial, continues⟩
      next notClose notComma => simpa using fun given _ => not_continues own notClose notComma

theorem members_eq_ok :
    options.members text = .ok (final, rest) ↔ ∃ keys, keys.Nodup ∧
      Lists Key.Member '\x7d' options text keys final rest := by
  have own : '\x7d' ∈ marks := by decide
  rw [members]
  split
  next later found => simp [lists_close own member_apart found, eq_comm]
  next notClose =>
    simp only [bind_eq_ok, Prod.exists, member_eq_ok, moreMembers_eq_ok,
      lists_part own member_apart notClose]
    constructor
    · rintro ⟨key, _, mid, ⟨-, value, part, rfl, spelled, reads⟩, keys, distinct, apart, -,
        continues⟩
      have absent : key ∉ keys := fun member => by simpa using apart key member
      exact ⟨key :: keys, List.nodup_cons.mpr ⟨absent, distinct⟩, by simp,
        (lists_cons absent).mpr ⟨value, part, mid, spelled, reads, continues⟩⟩
    · rintro ⟨keys, distinct, filled, lists⟩
      obtain ⟨key, keys, rfl⟩ := List.exists_cons_of_ne_nil filled
      obtain ⟨absent, others⟩ := List.nodup_cons.mp distinct
      obtain ⟨value, part, mid, spelled, reads, continues⟩ := (lists_cons absent).mp lists
      -- distinct keys are too few to use up the count
      have few : (key :: keys).length ≤ 4 :=
        (List.subperm_of_subset distinct fun key _ => key.mem_all).length_le
      refine ⟨key, _, mid, ⟨List.not_mem_nil, value, part, rfl, spelled, reads⟩, keys, others, ?_,
        few, continues⟩
      grind

theorem elements_eq_ok :
    options.elements text = .ok (final, rest) ↔ ∃ keys, keys <+: Key.all ∧
      Lists Key.Spelled ']' options text keys final rest := by
  have own : ']' ∈ marks := by decide
  obtain ⟨absent, distinct⟩ := List.nodup_cons.mp (show Key.all.Nodup by decide)
  rw [elements]
  split
  next later found => simp [lists_close own spelled_apart found, eq_comm]
  next notClose =>
    simp only [bind_eq_ok, Prod.exists, set_eq_ok, moreElements_eq_ok distinct,
      lists_part own spelled_apart notClose]
    constructor
    · rintro ⟨_, mid, ⟨value, part, rfl, spelled, reads⟩, keys, initial, continues⟩
      have fresh : Key.onDeny ∉ keys := fun member => absent (initial.subset member)
      exact ⟨.onDeny :: keys, List.cons_prefix_cons.mpr ⟨rfl, initial⟩, by simp,
        (lists_cons fresh).mpr ⟨value, part, mid, spelled, reads, continues⟩⟩
    · rintro ⟨keys, whole, filled, lists⟩
      obtain ⟨key, keys, rfl⟩ := List.exists_cons_of_ne_nil filled
      obtain ⟨rfl, initial⟩ := List.cons_prefix_cons.mp whole
      have fresh : Key.onDeny ∉ keys := fun member => absent (initial.subset member)
      obtain ⟨value, part, mid, spelled, reads, continues⟩ := (lists_cons fresh).mp lists
      exact ⟨_, mid, ⟨value, part, rfl, spelled, reads⟩, keys, initial, continues⟩

theorem read_recognizes : Recognizes read Spelled := by
  have brace : '\x7b' ∈ marks := by decide
  have bracket : '[' ∈ marks := by decide
  intro text options rest
  -- the first mark of a text tells an object from an array
  rw [read]
  split
  next later found =>
    rw [members_eq_ok]
    constructor
    · rintro ⟨keys, distinct, members, overlays, reads⟩
      exact ⟨_, .object distinct overlays, (reads_mark_cons brace).mpr ⟨later, found, reads⟩⟩
    · rintro ⟨_, ⟨distinct, overlays⟩ | _, reads⟩
      all_goals
        obtain ⟨_, again⟩ := reads.starts
        cases found.symm.trans again
      obtain ⟨_, opening, reads⟩ := (reads_mark_cons brace).mp reads
      cases found.symm.trans opening
      exact ⟨_, distinct, _, overlays, reads⟩
  next later found =>
    rw [elements_eq_ok]
    constructor
    · rintro ⟨keys, initial, values, overlays, reads⟩
      exact ⟨_, .array initial overlays, (reads_mark_cons bracket).mpr ⟨later, found, reads⟩⟩
    · rintro ⟨_, _ | ⟨initial, overlays⟩, reads⟩
      all_goals
        obtain ⟨_, again⟩ := reads.starts
        cases found.symm.trans again
      obtain ⟨_, opening, reads⟩ := (reads_mark_cons bracket).mp reads
      cases found.symm.trans opening
      exact ⟨_, initial, _, overlays, reads⟩
  next notBrace notBracket =>
    constructor
    · rintro ⟨⟩
    · rintro ⟨_, _ | _, reads⟩
      all_goals obtain ⟨_, found⟩ := reads.starts
      · exact absurd found (notBrace _)
      · exact absurd found (notBracket _)

theorem parse_overlay (text : String) (options : Options) :
    parse text = .ok options ↔ ∃ tokens, options.Spelled tokens ∧ Layout tokens text.toList :=
  read_recognizes.finish

theorem parse_overlay_named :
    let spells := fun (text : String) (options : Options) =>
      parse text = .ok options ∧ ∃ tokens, options.Spelled tokens ∧ Layout tokens text.toList
    spells ("\x7b\"denial_message\": \"no\", \"on_deny\": \"abort\\u005Frequest\", " ++
        "\"failure_message\": \"oops\", \"or_precedence\": \x7b\"first\": null\x7d\x7d")
        ⟨.abort, .first, "no", "oops"⟩ ∧
      spells "[\"redact\", \"last\"]"
        ⟨.redact, .last, "not authorized", "internal error while authorizing request"⟩ ∧
      spells "\x7b\x7d"
        ⟨.redact, .last, "not authorized", "internal error while authorizing request"⟩ := by
  -- All members under their names, each choice in one of its two spellings, and none of them.
  intro spells
  have spelled (text : String) (options : Options) (read : (parse text).toOption = some options) :
      spells text options := by
    have accepted : parse text = .ok options := by
      cases found : parse text with
      | ok other => simpa [found, Except.toOption] using read
      | error problem => simp [found, Except.toOption] at read
    exact ⟨accepted, (parse_overlay text options).mp accepted⟩
  refine ⟨spelled _ _ ?_, spelled _ _ ?_, spelled _ _ ?_⟩
  all_goals decide +kernel

end

end FieldGuard.Options
