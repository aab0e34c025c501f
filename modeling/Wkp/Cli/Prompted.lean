import Wkp.Cli.PromptTokens

/-!
# Valid JSON in the prompt hook

What `extract_json_string_field` returns for a text that is a JSON object: every escape is read by
itself, so that a surrogate pair becomes two replacement characters.

* `extractJsonStringField_text` : the function on the members of the object.
* `GivesField`, `TextReadsRight` : what it should return, and what the text must be like.
* `givesField_iff` : it returns that exactly for these texts.
* `readsRight_iff` : where no name has a surrogate pair, only the value of the field matters.
-/

namespace Wkp.Cli

open Rust Json

/-! ### Tokens of valid JSON -/

theorem isOther_of_isBlank {c : Char} (h : isBlank c = true) : isOther c = true := by
  simp only [isBlank, Bool.or_eq_true, decide_eq_true_eq] at h
  rcases h with ((rfl | rfl) | rfl) | rfl <;> rfl

theorem isAsciiWhitespace_of_isBlank {c : Char} (h : isBlank c = true) :
    isAsciiWhitespace c = true := by
  simp only [isBlank, Bool.or_eq_true, decide_eq_true_eq] at h
  rcases h with ((rfl | rfl) | rfl) | rfl <;> rfl

theorem isWhitespace_of_isBlank {c : Char} (h : isBlank c = true) : isWhitespace c = true := by
  simp only [isBlank, Bool.or_eq_true, decide_eq_true_eq] at h
  rcases h with ((rfl | rfl) | rfl) | rfl <;> rfl

theorem isAsciiWhitespace_of_isWordChar {c : Char} (h : isWordChar c = true) :
    isAsciiWhitespace c = false := by
  rw [Bool.eq_false_iff]
  intro hc
  simp only [isAsciiWhitespace, Bool.or_eq_true, decide_eq_true_eq] at hc
  rcases hc with (((rfl | rfl) | rfl) | rfl) | rfl <;> exact absurd h (by decide)

theorem readToken_map_other {s : Str} (h : ∀ c ∈ s, isOther c = true) :
    ∀ t ∈ s.map Token.other, ReadToken t := by
  intro t ht
  obtain ⟨c, hc, rfl⟩ := List.mem_map.1 ht
  exact h c hc

theorem readToken_gap (gap : Gap) : ∀ t ∈ gap.tokens, ReadToken t :=
  readToken_map_other fun c hc => isOther_of_isBlank (gap.blank c hc)

theorem readToken_literal (s : Literal) : ReadToken (.literal s.pieces) :=
  fun p hp => (s.ok p hp).1.mono fun _ => .inl

theorem readToken_key (key : Key) : ∀ t ∈ key.tokens, ReadToken t :=
  List.forall_mem_append.2 ⟨readToken_gap _,
    List.forall_mem_cons.2 ⟨readToken_literal _, readToken_gap _⟩⟩

mutual

theorem readToken_value : ∀ v : Value, ∀ t ∈ v.tokens, ReadToken t
  | .word w => readToken_map_other fun c hc => isOther_of_isWordChar (w.chars.2 c hc)
  | .string s => List.forall_mem_singleton.2 (readToken_literal s)
  | .array items => List.forall_mem_cons.2 ⟨trivial,
      List.forall_mem_append.2 ⟨readToken_items items, List.forall_mem_singleton.2 trivial⟩⟩
  | .emptyArray gap => List.forall_mem_cons.2 ⟨trivial,
      List.forall_mem_append.2 ⟨readToken_gap gap, List.forall_mem_singleton.2 trivial⟩⟩
  | .object members => List.forall_mem_cons.2 ⟨trivial,
      List.forall_mem_append.2 ⟨readToken_members members, List.forall_mem_singleton.2 trivial⟩⟩
  | .emptyObject gap => List.forall_mem_cons.2 ⟨trivial,
      List.forall_mem_append.2 ⟨readToken_gap gap, List.forall_mem_singleton.2 trivial⟩⟩

theorem readToken_items : ∀ items : Items, ∀ t ∈ items.tokens, ReadToken t
  | .last before v after => by
    simp only [Items.tokens, List.forall_mem_append]
    exact ⟨readToken_gap _, readToken_value v, readToken_gap _⟩
  | .cons before v after items => by
    simp only [Items.tokens, List.forall_mem_append, List.forall_mem_cons]
    exact ⟨readToken_gap _, readToken_value v, readToken_gap _, rfl, readToken_items items⟩

theorem readToken_members : ∀ ms : Members, ∀ t ∈ ms.tokens, ReadToken t
  | .last key before v after => by
    simp only [Members.tokens, List.forall_mem_append, List.forall_mem_cons]
    exact ⟨readToken_key key, rfl, readToken_gap _, readToken_value v, readToken_gap _⟩
  | .cons key before v after ms => by
    simp only [Members.tokens, List.forall_mem_append, List.forall_mem_cons]
    exact ⟨readToken_key key, rfl, readToken_gap _, readToken_value v, readToken_gap _, rfl,
      readToken_members ms⟩

end

/-! ### What is nested -/

variable (field : Str)

theorem lastAnswer_gap (gap : Gap) (ts : List Token) (d : ℤ) (value : Bool) (found : Option Str) :
    lastAnswer id field (gap.tokens ++ ts) d value found = lastAnswer id field ts d value found :=
  lastAnswer_others (fun u hu => by
    obtain ⟨c, -, rfl⟩ := List.mem_map.1 hu
    exact ⟨c, rfl⟩) field ts d value found

theorem lastAnswer_deep {d : ℤ} (hd : 2 ≤ d) (s : List Piece) (ts : List Token)
    (found : Option Str) :
    lastAnswer id field (.literal s :: ts) d false found = lastAnswer id field ts d false found :=
  lastAnswer_literal _ (.inl fun h => by omega)

/-- What is between two brackets has no effect if it has none a level deeper. -/
theorem lastAnswer_enclosed {d : ℤ} (hd : 1 ≤ d) {found : Option Str} {us : List Token}
    (h : ∀ ts, lastAnswer id field (us ++ ts) (d + 1) false found =
      lastAnswer id field ts (d + 1) false found) (b b' : Bracket) (ts : List Token) :
    lastAnswer id field (.opens b :: (us ++ [.closes b']) ++ ts) d false found =
      lastAnswer id field ts d false found := by
  rw [List.cons_append, lastAnswer_opens, id_eq, List.append_assoc, List.singleton_append, h,
    lastAnswer_closes, id_eq, if_neg (by omega), add_sub_cancel_right]

mutual

theorem pass_value {d : ℤ} (hd : 2 ≤ d) (found : Option Str) : ∀ (v : Value) (ts : List Token),
    lastAnswer id field (v.tokens ++ ts) d false found = lastAnswer id field ts d false found
  | .word w, ts => lastAnswer_others (fun u hu => by
      obtain ⟨c, -, rfl⟩ := List.mem_map.1 hu
      exact ⟨c, rfl⟩) field ts d false found
  | .string s, ts => lastAnswer_deep field hd s.pieces ts found
  | .array items, ts => by
    rw [Value.tokens]
    exact lastAnswer_enclosed field (by omega) (pass_items (by omega) found items) _ _ ts
  | .emptyArray gap, ts => by
    rw [Value.tokens]
    exact lastAnswer_enclosed field (by omega) (fun ts => lastAnswer_gap field gap ts _ _ _) _ _ ts
  | .object members, ts => by
    rw [Value.tokens]
    exact lastAnswer_enclosed field (by omega) (pass_members (by omega) found members) _ _ ts
  | .emptyObject gap, ts => by
    rw [Value.tokens]
    exact lastAnswer_enclosed field (by omega) (fun ts => lastAnswer_gap field gap ts _ _ _) _ _ ts

theorem pass_items {d : ℤ} (hd : 2 ≤ d) (found : Option Str) : ∀ (items : Items)
    (ts : List Token),
    lastAnswer id field (items.tokens ++ ts) d false found = lastAnswer id field ts d false found
  | .last before v after, ts => by
    have hv := pass_value hd found v
    simp only [Items.tokens, List.append_assoc, lastAnswer_gap, hv]
  | .cons before v after items, ts => by
    have hv := pass_value hd found v
    have hitems := pass_items hd found items ts
    simp only [Items.tokens, List.append_assoc, List.cons_append, lastAnswer_gap, hv,
      lastAnswer_other, hitems]

theorem pass_members {d : ℤ} (hd : 2 ≤ d) (found : Option Str) : ∀ (ms : Members)
    (ts : List Token),
    lastAnswer id field (ms.tokens ++ ts) d false found = lastAnswer id field ts d false found
  | .last key before v after, ts => by
    have hv := pass_value hd found v
    simp only [Members.tokens, Key.tokens, List.append_assoc, List.cons_append, lastAnswer_gap,
      lastAnswer_deep field hd, lastAnswer_other, hv]
  | .cons key before v after ms, ts => by
    have hv := pass_value hd found v
    have hms := pass_members hd found ms ts
    simp only [Members.tokens, Key.tokens, List.append_assoc, List.cons_append, lastAnswer_gap,
      lastAnswer_deep field hd, lastAnswer_other, hv, hms]

end

/-! ### Members -/

variable {field}

theorem dropWhile_gap (gap : Gap) (ts : List Token) :
    (gap.tokens ++ ts).dropWhile isSpace = ts.dropWhile isSpace := by
  refine List.dropWhile_append_of_pos fun t ht => ?_
  obtain ⟨c, hc, rfl⟩ := List.mem_map.1 ht
  exact isAsciiWhitespace_of_isBlank (gap.blank c hc)

theorem exists_head_value (v : Value) : ∃ t ts, v.tokens = t :: ts ∧ isSpace t = false ∧
    ∀ s, t = .literal s → v.string? = some s := by
  cases v with
  | word w =>
    obtain ⟨hne, hchars⟩ := w.chars
    obtain ⟨c, s, hs⟩ := List.exists_cons_of_ne_nil hne
    refine ⟨.other c, s.map .other, by rw [Value.tokens, hs, List.map_cons], ?_, nofun⟩
    exact isAsciiWhitespace_of_isWordChar (hchars c (by rw [hs]; exact List.mem_cons_self))
  | string s =>
    refine ⟨.literal s.pieces, [], by rw [Value.tokens], rfl, ?_⟩
    rintro _ ⟨⟩
    rfl
  | array items => exact ⟨.opens .square, _, by rw [Value.tokens], rfl, nofun⟩
  | emptyArray gap => exact ⟨.opens .square, _, by rw [Value.tokens], rfl, nofun⟩
  | object members => exact ⟨.opens .brace, _, by rw [Value.tokens], rfl, nofun⟩
  | emptyObject gap => exact ⟨.opens .brace, _, by rw [Value.tokens], rfl, nofun⟩

/-- What ends a member. -/
def Ends (ts : List Token) : Prop :=
  ∃ t us, ts = t :: us ∧ isSpace t = false ∧ t ≠ .other ':'

theorem behindColon_of_ends {ts : List Token} (h : Ends ts) (gap : Gap) :
    behindColon (gap.tokens ++ ts) = none := by
  obtain ⟨t, us, rfl, hspace, hcolon⟩ := h
  rw [behindColon, dropWhile_gap, List.dropWhile_cons_of_neg (Bool.eq_false_iff.1 hspace)]
  cases t with
  | other c => exact if_neg fun hc => hcolon (congrArg Token.other hc)
  | opens b => rfl
  | closes b => rfl
  | literal s => rfl

theorem behindColon_member (after before : Gap) (v : Value) (ts : List Token) :
    behindColon (after.tokens ++ .other ':' :: (before.tokens ++ (v.tokens ++ ts))) =
      some (v.tokens ++ ts) := by
  obtain ⟨t, us, hv, hspace, -⟩ := exists_head_value v
  have hcolon : ¬ isSpace (.other ':') = true := by decide
  rw [behindColon, dropWhile_gap, List.dropWhile_cons_of_neg hcolon]
  show (if ':' = ':' then _ else _) = _
  rw [if_pos rfl, dropWhile_gap, hv, List.cons_append,
    List.dropWhile_cons_of_neg (Bool.eq_false_iff.1 hspace)]

theorem pass_member_value (v : Value) {ts : List Token} (hts : Ends ts) (after : Gap)
    (found : Option Str) :
    lastAnswer id field (v.tokens ++ (after.tokens ++ ts)) 1 false found =
      lastAnswer id field ts 1 false found := by
  cases v with
  | word w =>
    rw [← lastAnswer_gap field after ts]
    exact lastAnswer_others (fun u hu => by
      obtain ⟨c, -, rfl⟩ := List.mem_map.1 hu
      exact ⟨c, rfl⟩) field _ 1 false found
  | string s =>
    rw [Value.tokens, List.singleton_append,
      lastAnswer_literal _ (.inr (behindColon_of_ends hts after)), lastAnswer_gap]
  | array items =>
    rw [Value.tokens, lastAnswer_enclosed field le_rfl (pass_items field (by norm_num) found items),
      lastAnswer_gap]
  | emptyArray gap =>
    rw [Value.tokens, lastAnswer_enclosed field le_rfl (fun ts => lastAnswer_gap field gap ts _ _ _),
      lastAnswer_gap]
  | object members =>
    rw [Value.tokens, lastAnswer_enclosed field le_rfl (pass_members field (by norm_num) found members),
      lastAnswer_gap]
  | emptyObject gap =>
    rw [Value.tokens, lastAnswer_enclosed field le_rfl (fun ts => lastAnswer_gap field gap ts _ _ _),
      lastAnswer_gap]

/-- A member: only one whose key reads as the field has an effect. -/
theorem lastAnswer_member (key : Key) (before : Gap) (v : Value) (after : Gap) {ts : List Token}
    (hts : Ends ts) (found : Option Str) :
    lastAnswer id field (key.tokens ++ .other ':' ::
        (before.tokens ++ (v.tokens ++ (after.tokens ++ ts)))) 1 false found =
      if readEach key.name.pieces = field then
        v.string?.bind fun s => lastAnswer id field ts 1 false (some (readEach s))
      else lastAnswer id field ts 1 false found := by
  have hcolon := behindColon_member key.after before v (after.tokens ++ ts)
  rw [Key.tokens, List.append_assoc, List.cons_append, lastAnswer_gap]
  split_ifs with hkey
  · cases hstring : v.string? with
    | some s =>
      have hv : v.tokens = [.literal s] := by
        cases v <;> cases hstring
        rw [Value.tokens]
      rw [hv, List.singleton_append] at hcolon ⊢
      rw [lastAnswer_key _ ⟨rfl, hkey⟩ hcolon, lastAnswer_gap, lastAnswer_other, lastAnswer_gap,
        lastAnswer_value, lastAnswer_gap]
      rfl
    | none =>
      obtain ⟨t, us, hv, -, hliteral⟩ := exists_head_value v
      refine lastAnswer_key_none _ ⟨rfl, hkey⟩ hcolon fun s rest heq => ?_
      rw [hv] at heq
      rw [hliteral s (List.cons.inj heq).1] at hstring
      cases hstring
  · rw [lastAnswer_literal _ (.inl fun h => hkey h.2), lastAnswer_gap, lastAnswer_other,
      lastAnswer_gap, pass_member_value v hts]

/-! ### The whole object -/

/-- The value of the last member whose name reads as the field; nothing when one of them has a value
that is no string. -/
def lastRead (field : Str) : List (Literal × Value) → Option Str → Option Str
  | [], found => found
  | m :: ms, found =>
    if readEach m.1.pieces = field then m.2.string?.bind fun s => lastRead field ms (some (readEach s))
    else lastRead field ms found

theorem lastAnswer_entries (after : Gap) : ∀ (ms : Members) (found : Option Str),
    lastAnswer id field (ms.tokens ++ .closes .brace :: after.tokens) 1 false found =
      lastRead field ms.entries found
  | .last key before v gap, found => by
    have hend : ∀ found, lastAnswer id field (.closes .brace :: after.tokens) 1 false found = found := by
      intro found
      rw [← List.append_nil after.tokens, lastAnswer_closes, id_eq, if_neg (by norm_num), lastAnswer_gap,
        lastAnswer_nil]
      rfl
    have hends : Ends (.closes .brace :: after.tokens) := ⟨_, _, rfl, rfl, nofun⟩
    have hmember := @lastAnswer_member field key before v gap _ hends found
    simp only [Members.tokens, List.append_assoc, List.cons_append]
    rw [hmember]
    simp only [hend]
    rfl
  | .cons key before v gap ms, found => by
    have hends : Ends (.other ',' :: (ms.tokens ++ .closes .brace :: after.tokens)) :=
      ⟨_, _, rfl, rfl, by decide⟩
    have hmember := @lastAnswer_member field key before v gap _ hends found
    simp only [Members.tokens, List.append_assoc, List.cons_append]
    rw [hmember]
    simp only [lastAnswer_other, lastAnswer_entries after ms]
    rfl

/-- **What the function returns for valid JSON.**  Too many open brackets do not fit into 32 bits. -/
theorem extractJsonStringField_text (t : ObjectText) (field : Str) :
    extractJsonStringField t.text field =
      if t.nesting ≤ boundI32 then lastRead field t.content.entries none else none := by
  have hbefore : render t.before.tokens = t.before.text := render_map_other _
  have hw : ∀ c ∈ t.before.text, isWhitespace c = true :=
    fun c hc => isWhitespace_of_isBlank (t.before.blank c hc)
  have hcontent : ∀ u ∈ t.content.tokens, ReadToken u := by
    cases t.content with
    | empty gap => exact readToken_gap gap
    | members ms => exact readToken_members ms
  have hts : ∀ u ∈ t.content.tokens ++ .closes .brace :: t.after.tokens, ReadToken u :=
    List.forall_mem_append.2 ⟨hcontent, List.forall_mem_cons.2 ⟨trivial, readToken_gap _⟩⟩
  rw [ObjectText.text, ObjectText.tokens, render_append, hbefore,
    extractJsonStringField_render hw hts]
  refine (lastAnswer_wrapI32 (n := 1) field t.depth_content false none).trans ?_
  rw [← t.nesting_eq]
  congr 1
  cases t.content with
  | empty gap =>
    rw [Content.tokens, lastAnswer_gap, lastAnswer_closes, id_eq, if_neg (by norm_num),
      ← List.append_nil t.after.tokens, lastAnswer_gap, lastAnswer_nil]
    rfl
  | members ms => exact lastAnswer_entries t.after ms none

/-! ### Surrogate pairs -/

/-- The members whose name is the field. -/
def named (field : Str) (ms : List (Literal × Value)) : List (Literal × Value) :=
  ms.filter fun m => decode m.1.pieces = field

/-- The members whose name is the field when every escape is read by itself. -/
def readAs (field : Str) (ms : List (Literal × Value)) : List (Literal × Value) :=
  ms.filter fun m => readEach m.1.pieces = field

theorem lastRead_of_none {ms : List (Literal × Value)}
    (h : ∃ m ∈ readAs field ms, m.2.string? = none) (found : Option Str) :
    lastRead field ms found = none := by
  induction ms generalizing found with
  | nil =>
    obtain ⟨m, hm, -⟩ := h
    cases hm
  | cons m ms ih =>
    rw [lastRead]
    rw [readAs, List.filter_cons] at h
    by_cases hkey : readEach m.1.pieces = field
    · rw [if_pos (decide_eq_true hkey), List.exists_mem_cons_iff] at h
      rw [if_pos hkey]
      rcases h with h | h
      · rw [h, Option.bind_none]
      · cases m.2.string? with
        | none => rfl
        | some s => exact ih h _
    · rw [if_neg (by simpa using hkey)] at h
      rw [if_neg hkey, ih h]

theorem lastRead_of_strings {ms : List (Literal × Value)}
    (h : ∀ m ∈ readAs field ms, m.2.string? ≠ none) (found : Option Str) :
    lastRead field ms found =
      (readAs field ms).getLast?.elim found fun m => m.2.string?.map readEach := by
  induction ms generalizing found with
  | nil => rfl
  | cons m ms ih =>
    rw [lastRead]
    by_cases hkey : readEach m.1.pieces = field
    · have hcons : readAs field (m :: ms) = m :: readAs field ms := by
        rw [readAs, List.filter_cons, if_pos (decide_eq_true hkey), ← readAs]
      rw [hcons, List.forall_mem_cons] at h
      obtain ⟨s, hs⟩ := Option.ne_none_iff_exists'.1 h.1
      rw [if_pos hkey, hs, Option.bind_some, ih h.2, hcons, List.getLast?_cons]
      cases (readAs field ms).getLast? with
      | none => simp [hs]
      | some n => rfl
    · have hcons : readAs field (m :: ms) = readAs field ms := by
        rw [readAs, List.filter_cons, if_neg (by simpa using hkey), ← readAs]
      rw [hcons] at h
      rw [if_neg hkey, ih h, hcons]

/-- What a text is expected to give: the value of the field where it occurs once, if that is a
string, and nothing where it does not occur. -/
def GivesField (field : Str) (ms : List (Literal × Value)) (result : Option Str) : Prop :=
  (∀ m, named field ms = [m] → result = m.2.string?.map decode) ∧ (named field ms = [] → result = none)

/-- What the members must be like.  Where the field is one string, all the names that read as it have
strings, and the last of these reads as the value; otherwise no name reads as it, or one of them has
a value that is no string. -/
def ReadsRight (field : Str) (ms : List (Literal × Value)) : Prop :=
  (∀ m s, named field ms = [m] → m.2.string? = some s →
    (∀ n ∈ readAs field ms, n.2.string? ≠ none) ∧
      ∃ n s', (readAs field ms).getLast? = some n ∧ n.2.string? = some s' ∧ readEach s' = decode s) ∧
  ((∀ m ∈ named field ms, m.2.string? = none) → (named field ms).length ≤ 1 →
    readAs field ms = [] ∨ ∃ n ∈ readAs field ms, n.2.string? = none)

theorem lastRead_eq_none_iff {ms : List (Literal × Value)} : lastRead field ms none = none ↔
    readAs field ms = [] ∨ ∃ n ∈ readAs field ms, n.2.string? = none := by
  by_cases h : ∃ n ∈ readAs field ms, n.2.string? = none
  · exact iff_of_true (lastRead_of_none h none) (.inr h)
  · have hall : ∀ n ∈ readAs field ms, n.2.string? ≠ none := fun n hn heq => h ⟨n, hn, heq⟩
    rw [lastRead_of_strings hall, or_iff_left h]
    cases hlast : (readAs field ms).getLast? with
    | none => simpa using hlast
    | some n =>
      have hn := List.mem_of_getLast? hlast
      refine iff_of_false ?_ (List.ne_nil_of_mem hn)
      simpa using hall n hn

theorem lastRead_eq_some_iff {ms : List (Literal × Value)} {v : Str} :
    lastRead field ms none = some v ↔ (∀ n ∈ readAs field ms, n.2.string? ≠ none) ∧
      ∃ n s, (readAs field ms).getLast? = some n ∧ n.2.string? = some s ∧ readEach s = v := by
  by_cases h : ∃ n ∈ readAs field ms, n.2.string? = none
  · rw [lastRead_of_none h]
    refine iff_of_false nofun fun hall => ?_
    obtain ⟨n, hn, heq⟩ := h
    exact hall.1 n hn heq
  · have hall : ∀ n ∈ readAs field ms, n.2.string? ≠ none := fun n hn heq => h ⟨n, hn, heq⟩
    rw [lastRead_of_strings hall, and_iff_right hall]
    cases hlast : (readAs field ms).getLast? with
    | none => simp
    | some n => simp [Option.map_eq_some_iff]

theorem givesField_lastRead_iff {ms : List (Literal × Value)} :
    GivesField field ms (lastRead field ms none) ↔ ReadsRight field ms := by
  constructor
  · rintro ⟨hone, hnone⟩
    refine ⟨fun m s hm hs => ?_, fun hstrings hlen => ?_⟩
    · have h := hone m hm
      rw [hs, Option.map_some, lastRead_eq_some_iff] at h
      exact h
    · rw [← lastRead_eq_none_iff]
      rcases hnamed : named field ms with _ | ⟨m, _ | ⟨n, l⟩⟩
      · exact hnone hnamed
      · rw [hone m hnamed, hstrings m (hnamed ▸ List.mem_cons_self), Option.map_none]
      · rw [hnamed] at hlen
        simp at hlen
  · rintro ⟨hone, hnone⟩
    refine ⟨fun m hm => ?_, fun hnil => ?_⟩
    · cases hs : m.2.string? with
      | some s =>
        rw [Option.map_some, lastRead_eq_some_iff]
        exact hone m s hm hs
      | none =>
        rw [Option.map_none, lastRead_eq_none_iff]
        refine hnone (fun n hn => ?_) (by rw [hm]; exact le_rfl)
        rw [hm, List.mem_singleton] at hn
        rw [hn, hs]
    · rw [lastRead_eq_none_iff]
      exact hnone (by rw [hnil]; exact nofun) (by rw [hnil]; exact Nat.zero_le 1)

/-- What the text must be like.  Where it is nested too deep for 32 bits, nothing may be expected. -/
def TextReadsRight (field : Str) (t : ObjectText) : Prop :=
  (t.nesting ≤ boundI32 → ReadsRight field t.content.entries) ∧
    (boundI32 < t.nesting → ∀ m, named field t.content.entries = [m] → m.2.string? = none)

/-- **When valid JSON is read right.** -/
theorem givesField_iff (t : ObjectText) (field : Str) :
    GivesField field t.content.entries (extractJsonStringField t.text field) ↔
      TextReadsRight field t := by
  rw [extractJsonStringField_text, TextReadsRight]
  by_cases hdeep : t.nesting ≤ boundI32
  · rw [if_pos hdeep, givesField_lastRead_iff]
    exact ⟨fun h => ⟨fun _ => h, fun hlt => absurd hdeep hlt.not_ge⟩, fun h => h.1 hdeep⟩
  · rw [if_neg hdeep]
    constructor
    · rintro ⟨hone, -⟩
      refine ⟨fun hle => absurd hle hdeep, fun _ m hm => ?_⟩
      exact Option.map_eq_none_iff.1 (hone m hm).symm
    · rintro ⟨-, hnone⟩
      refine ⟨fun m hm => ?_, fun _ => rfl⟩
      rw [hnone (not_le.1 hdeep) m hm, Option.map_none]

/-- Where no name has a surrogate pair, it is the value of the field that must have none. -/
theorem readsRight_iff {ms : List (Literal × Value)} (h : ∀ m ∈ ms, Unpaired m.1.pieces) :
    ReadsRight field ms ↔
      ∀ m s, named field ms = [m] → m.2.string? = some s → Unpaired s := by
  have hnames : readAs field ms = named field ms := List.filter_congr fun m hm => by
    rw [(readEach_eq_decode_iff m.1.pieces).2 (h m hm)]
  rw [ReadsRight, hnames]
  constructor
  · rintro ⟨hone, -⟩ m s hm hs
    obtain ⟨-, n, s', hn, hs', heq⟩ := hone m s hm hs
    rw [hm, List.getLast?_singleton, Option.some_inj] at hn
    rw [← hn, hs, Option.some_inj] at hs'
    rw [← readEach_eq_decode_iff, ← heq, hs']
  · intro hall
    refine ⟨fun m s hm hs => ⟨fun n hn => ?_, m, s, ?_, hs, ?_⟩, fun hnone _ => ?_⟩
    · rw [hm, List.mem_singleton] at hn
      rw [hn, hs]
      exact Option.some_ne_none s
    · rw [hm, List.getLast?_singleton]
    · exact (readEach_eq_decode_iff s).2 (hall m s hm hs)
    · rcases hnamed : named field ms with _ | ⟨m, l⟩
      · exact .inl rfl
      · exact .inr ⟨m, List.mem_cons_self, hnone m (hnamed ▸ List.mem_cons_self)⟩

/-- A string of characters that need no escape. -/
def plainLiteral (s : Str) (h : (s.all fun c => c ≠ '"' ∧ c ≠ '\\' ∧ 0x20 ≤ c.toNat) = true) :
    Literal where
  pieces := s.map .plain
  ok p hp := by
    obtain ⟨c, hc, rfl⟩ := List.mem_map.1 hp
    have hok := of_decide_eq_true (List.all_eq_true.1 h c hc)
    exact ⟨⟨hok.1, hok.2.1⟩, hok.2.2⟩

/-- No blanks. -/
def noGap : Gap := ⟨[], nofun⟩

/-- A character outside the basic plane, as the two halves of a surrogate pair. -/
def exampleEmoji : Literal where
  pieces := [.unicode "d83d".toList, .unicode "de00".toList]
  ok p hp := by
    have hquad : IsQuad "d83d".toList ∧ IsQuad "de00".toList :=
      ⟨⟨rfl, List.all_eq_true.1 (by decide)⟩, rfl, List.all_eq_true.1 (by decide)⟩
    rcases List.mem_pair.1 hp with rfl | rfl
    · exact ⟨hquad.1, trivial⟩
    · exact ⟨hquad.2, trivial⟩

/-- A payload whose prompt is that character. -/
def exampleEmojiPayload : ObjectText where
  before := noGap
  content := .members (.last ⟨noGap, plainLiteral "prompt".toList (by decide), noGap⟩ noGap
    (.string exampleEmoji) noGap)
  after := noGap

/-- The payload is valid, and the character is read as two replacement characters. -/
theorem exampleEmoji_misread :
    exampleEmojiPayload.text = "\x7b\"prompt\":\"\\ud83d\\ude00\"\x7d".toList ∧
      decode exampleEmoji.pieces = "😀".toList ∧
      extractJsonStringField exampleEmojiPayload.text "prompt".toList = some "\uFFFD\uFFFD".toList ∧
      ¬ GivesField "prompt".toList exampleEmojiPayload.content.entries
        (extractJsonStringField exampleEmojiPayload.text "prompt".toList) := by
  have hread : extractJsonStringField exampleEmojiPayload.text "prompt".toList =
      some "\uFFFD\uFFFD".toList := by decide +kernel
  refine ⟨by decide +kernel, by decide +kernel, hread, fun h => ?_⟩
  rw [hread] at h
  exact absurd (h.1 _ rfl) (by decide +kernel)

end Wkp.Cli
