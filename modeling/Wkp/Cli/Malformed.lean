import Wkp.Cli.PromptTokens

/-!
# Malformed text in the prompt hook

When the text that `extract_json_string_field` takes a value from is one object with nested brackets.
The scanner keeps one depth of 32 bits for both kinds of brackets, goes on where the depth is zero
again, and leaves the digits of an escape to a parser that takes a sign.

* `OneObject` : the text is one object, and a key of it has the value.
* `Counted`, `Sound` : what the scanner looks at, and what it does not.
* `oneObject_iff` : the values come from one object exactly where the texts that are counted as
  objects are sound.
-/

namespace Wkp.Cli

open Rust Json

/-! ### Keys -/

/-- A key of the field with a value, where the depth is one. -/
def HasKey (field v : Str) (ts : List Token) (d : ℤ) : Prop :=
  ∃ before key rest s after, ts = before ++ .literal key :: rest ∧ depthAfter id before d = some 1 ∧
    readEach key = field ∧ behindColon rest = some (.literal s :: after) ∧ readEach s = v

theorem HasKey.cons {field v : Str} {t : Token} {ts : List Token} {d d' : ℤ}
    (h : HasKey field v ts d') (hstep : ∀ us, depthAfter id (t :: us) d = depthAfter id us d') :
    HasKey field v (t :: ts) d := by
  obtain ⟨before, key, rest, s, after, rfl, hbefore, hrest⟩ := h
  exact ⟨t :: before, key, rest, s, after, rfl, (hstep before).trans hbefore, hrest⟩

theorem hasKey_of_answer {field v : Str} {ts : List Token} {d : ℤ} {value : Bool}
    (h : some v ∈ answers id field ts d value) (hd : depthAfter id ts d ≠ none) :
    HasKey field v ts d := by
  induction ts generalizing d value with
  | nil => cases h
  | cons t ts ih =>
    cases t with
    | opens b => exact (ih h hd).cons fun _ => rfl
    | closes b =>
      rw [depthAfter] at hd
      split_ifs at hd with hneg
      · exact absurd rfl hd
      · exact (ih h hd).cons fun _ => if_neg hneg
    | other c => exact (ih h hd).cons fun _ => rfl
    | literal key =>
      have hrest : ∀ value, some v ∈ answers id field ts d value →
          HasKey field v (.literal key :: ts) d := fun value h => (ih h hd).cons fun _ => rfl
      cases value with
      | true => exact hrest false h
      | false =>
        rw [answers] at h
        split_ifs at h with hkey
        · cases hbehind : behindColon ts with
          | none =>
            rw [hbehind] at h
            exact hrest false h
          | some r =>
            rw [hbehind] at h
            -- only a string behind the colon is an answer
            rcases r with _ | ⟨_ | _ | s | _, after⟩
            case cons.literal =>
              rcases List.mem_cons.1 h with heq | h
              · obtain rfl := Option.some.inj heq
                exact ⟨[], key, ts, s, after, rfl, congrArg some hkey.1, hkey.2, hbehind, rfl⟩
              · exact hrest true h
            all_goals exact hrest false ((List.mem_cons.1 h).resolve_left fun h => by cases h)
        · exact hrest false h

/-! ### One object -/

/-- The field is a key of the outermost object, with a string as its value. -/
def HasMember (field v : Str) (inner : List Token) : Prop :=
  ∃ before key gap gap' s after,
    inner = before ++ .literal key :: (gap ++ .other ':' :: (gap' ++ .literal s :: after)) ∧
    Brackets.Nested Token.mark before ∧ (∀ t ∈ gap ++ gap', isSpace t = true) ∧
    readEach key = field ∧ readEach s = v

/-- The text is one object in braces with nested brackets, whitespace around it, and the escapes of
JSON in its strings; and a key of that object has the value. -/
def OneObject (field v input : Str) : Prop :=
  ∃ w inner gap, input = w ++ render (.opens .brace :: (inner ++ .closes .brace :: gap)) ∧
    (∀ c ∈ w, isWhitespace c = true) ∧ (∀ t ∈ gap, ∃ c, t = .other c ∧ isWhitespace c = true) ∧
    (∀ t ∈ inner, t.Ok IsQuad) ∧ Brackets.Nested Token.mark inner ∧ HasMember field v inner

/-- What counting brackets in 32 bits takes for an object that has the field. -/
def Counted (field : Str) (ts : List Token) : Prop :=
  depthAfter wrapI32 ts 1 = some 0 ∧ none ∉ answers wrapI32 field ts 1 false ∧
    answers wrapI32 field ts 1 false ≠ []

/-- What counting in 32 bits does not see: brackets that come back to zero only because the number
wraps, an escape that is none of JSON, a bracket closed by one of the other kind, and what follows the
bracket that closes the first. -/
structure Sound (ts : List Token) : Prop where
  depth : Brackets.depth Token.mark 1 ts = some 0
  escapes : ∀ t ∈ ts, t.Ok IsQuad
  kinds : Brackets.KindsAgree Token.mark (.opens .brace :: ts)
  closed : ∀ before after, ts = before ++ after → Brackets.depth Token.mark 1 before = some 0 →
    ∀ t ∈ after, ∃ c, t = .other c ∧ isWhitespace c = true

theorem hasMember_of_hasKey {field v : Str} {inner gap : List Token} {t : Token}
    (h : HasKey field v (inner ++ t :: gap) 1) (ht : ∀ s, t ≠ .literal s)
    (hgap : ∀ u ∈ gap, ∃ c, u = .other c) (hinner : Brackets.Nested Token.mark inner) :
    HasMember field v inner := by
  obtain ⟨before, key, rest, s, after, hsplit, hbefore, hkey, hbehind, hs⟩ := h
  obtain ⟨rest', hdrop, hdrop'⟩ := behindColon_eq_some hbehind
  have hrest : rest = rest.takeWhile isSpace ++ .other ':' ::
      (rest'.takeWhile isSpace ++ .literal s :: after) := by
    rw [hdrop', List.takeWhile_append_dropWhile, ← hdrop, List.takeWhile_append_dropWhile]
  -- the tokens up to the value
  obtain ⟨x, hx⟩ : ∃ x, x = before ++ .literal key :: (rest.takeWhile isSpace ++ .other ':' ::
      rest'.takeWhile isSpace) := ⟨_, rfl⟩
  have hall : inner ++ t :: gap = x ++ .literal s :: after := by
    rw [hsplit, hx]
    conv_lhs => rw [hrest]
    simp
  obtain ⟨tail, htail⟩ : ∃ tail, inner = x ++ .literal s :: tail := by
    rcases List.append_eq_append_iff.1 hall with ⟨u, rfl, hu⟩ | ⟨u, rfl, hu⟩
    · -- the value would be behind the bracket
      have hmem : Token.literal s ∈ t :: gap := by
        rw [hu]
        exact List.mem_append_right _ List.mem_cons_self
      rcases List.mem_cons.1 hmem with heq | hmem
      · exact absurd heq.symm (ht s)
      · obtain ⟨c, hc⟩ := hgap _ hmem
        cases hc
    · rcases u with _ | ⟨u₀, u⟩
      · exact absurd (List.cons.inj hu).1.symm (ht s)
      · exact ⟨u, by rw [(List.cons.inj hu).1]⟩
  refine ⟨before, key, rest.takeWhile isSpace, rest'.takeWhile isSpace, s, tail, ?_, ?_, ?_, hkey,
    hs⟩
  · rw [htail, hx]
    simp
  · rw [htail, hx, List.append_assoc] at hinner
    exact hinner.of_append_left (depthAfter_eq_some.1 hbefore)
  · refine List.forall_mem_append.2 ⟨?_, ?_⟩ <;>
    exact fun u hu => List.mem_takeWhile_imp hu

theorem exists_answer {field : Str} {ts : List Token} (h : Counted field ts) :
    ∃ v, lastAnswer wrapI32 field ts 1 false none = some v := by
  obtain ⟨hdepth, hnone, hne⟩ := h
  have hlast := List.getLast?_eq_getLast_of_ne_nil hne
  rw [lastAnswer, if_pos ⟨hdepth, hnone⟩, hlast, Option.getD_some]
  exact Option.ne_none_iff_exists'.1 fun h => hnone (h ▸ List.getLast_mem hne)

/-- What is read is the last of the answers. -/
theorem answers_of_lastAnswer {wrap : ℤ → ℤ} {field v : Str} {ts : List Token}
    (h : lastAnswer wrap field ts 1 false none = some v) :
    (depthAfter wrap ts 1 = some 0 ∧ none ∉ answers wrap field ts 1 false) ∧
      some v ∈ answers wrap field ts 1 false := by
  rw [lastAnswer] at h
  split_ifs at h with hread
  cases hlast : (answers wrap field ts 1 false).getLast? with
  | none =>
    rw [hlast] at h
    cases h
  | some a =>
    rw [hlast] at h
    obtain rfl : a = some v := h
    exact ⟨hread, List.mem_of_getLast? hlast⟩

/-- What counting does not see makes the difference. -/
theorem oneObject_of_sound {field v w : Str} {ts : List Token}
    (hw : ∀ c ∈ w, isWhitespace c = true) (h : lastAnswer wrapI32 field ts 1 false none = some v)
    (hsound : Sound ts) : OneObject field v (w ++ render (.opens .brace :: ts)) := by
  -- brackets that are closed are counted in 32 bits as they are without a bound
  have hcount : lastAnswer id field ts 1 false none = some v := by
    have hwrap := h.symm.trans (lastAnswer_wrapI32 (n := 1) field hsound.depth false none)
    split_ifs at hwrap
    exact hwrap.symm
  obtain ⟨⟨hdepth, -⟩, hanswer⟩ := answers_of_lastAnswer hcount
  have hkey := hasKey_of_answer hanswer (by rw [hdepth]; exact Option.some_ne_none 0)
  obtain ⟨inner, t, gap, k, rfl, hinner, ht, hgap⟩ :=
    Brackets.exists_closing (n := 0) hsound.depth
  -- the bracket that closes the first brace is a brace
  obtain rfl := hsound.kinds [] (.opens .brace) inner t gap .brace k rfl rfl ht hinner
  obtain rfl := Token.eq_closes_of_mark ht
  have hclosed : ∀ u ∈ gap, ∃ c, u = .other c ∧ isWhitespace c = true := by
    refine hsound.closed (inner ++ [.closes .brace]) gap (by simp) ?_
    rw [Brackets.depth_append, Brackets.depth_add hinner 1]
    rfl
  have hnested : Brackets.Nested Token.mark inner := by
    refine Brackets.nested_of_depth hinner (Brackets.KindsAgree.of_append (l := [.opens .brace])
      (r := .closes .brace :: gap) ?_)
    rw [List.append_assoc]
    exact hsound.kinds
  refine ⟨w, inner, gap, rfl, hw, hclosed, fun u hu => ?_, hnested, ?_⟩
  · exact hsound.escapes u (List.mem_append_left _ hu)
  · refine hasMember_of_hasKey hkey nofun (fun u hu => ?_) hnested
    obtain ⟨c, hc, -⟩ := hclosed u hu
    exact ⟨c, hc⟩

theorem isOther_of_isWhitespace {c : Char} (h : isWhitespace c = true) : isOther c = true := by
  simp only [isOther, Bool.and_eq_true, decide_eq_true_eq, ne_eq]
  refine ⟨⟨⟨⟨?_, ?_⟩, ?_⟩, ?_⟩, ?_⟩ <;>
  · rintro rfl
    exact absurd h (by decide)

theorem nested_whitespace {gap : List Token}
    (h : ∀ t ∈ gap, ∃ c, t = .other c ∧ isWhitespace c = true) :
    Brackets.Nested Token.mark gap :=
  Brackets.nested_of_others fun t ht => by
    obtain ⟨c, rfl, -⟩ := h t ht
    rfl

/-- One object with nested brackets has nothing that counting does not see. -/
theorem sound_of_nested {inner gap : List Token} (hinner : ∀ t ∈ inner, t.Ok IsQuad)
    (hnested : Brackets.Nested Token.mark inner)
    (hgap : ∀ t ∈ gap, ∃ c, t = .other c ∧ isWhitespace c = true) :
    Sound (inner ++ .closes .brace :: gap) where
  depth := by
    rw [Brackets.depth_append, hnested.depth, Option.bind_some,
      Brackets.depth_closes _ 0 (Token.mark_closes .brace), (nested_whitespace hgap).depth]
  escapes := by
    refine List.forall_mem_append.2 ⟨hinner, List.forall_mem_cons.2 ⟨trivial, fun t ht => ?_⟩⟩
    obtain ⟨c, rfl, hc⟩ := hgap t ht
    exact isOther_of_isWhitespace hc
  kinds :=
    (Brackets.Nested.group (Token.mark_opens .brace) (Token.mark_closes .brace) hnested
      (nested_whitespace hgap)).kindsAgree
  closed before after hsplit hzero := by
    rcases List.append_eq_append_iff.1 hsplit with ⟨u, rfl, hu⟩ | ⟨u, rfl, hu⟩
    · rcases u with _ | ⟨u₀, u⟩
      · rw [List.append_nil, hnested.depth] at hzero
        cases hzero
      · intro t ht
        refine hgap t ?_
        rw [(List.cons.inj hu).2]
        exact List.mem_append_right _ ht
    · exact absurd (hnested.le_depth hzero) (by decide)

theorem takeWhile_render_opens {w : Str} (hw : ∀ c ∈ w, isWhitespace c = true) (ts : List Token) :
    (w ++ render (.opens .brace :: ts)).takeWhile isWhitespace = w := by
  rw [render_cons, List.takeWhile_append_of_pos hw]
  exact List.append_nil w

/-- **When a value comes from one object.**  For every text that counting takes for an object with
the field, there must be nothing that counting does not see. -/
theorem oneObject_iff (input field : Str) :
    (∀ v, extractJsonStringField input field = some v → OneObject field v input) ↔
      ∀ w ts, (∀ c ∈ w, isWhitespace c = true) → (∀ t ∈ ts, ReadToken t) →
        input = w ++ render (.opens .brace :: ts) → Counted field ts → Sound ts := by
  constructor
  · rintro h w ts hw hts rfl hcounted
    obtain ⟨v, hv⟩ := exists_answer hcounted
    have hextract := extractJsonStringField_eq_some.2 ⟨w, ts, hw, hts, rfl, hv⟩
    obtain ⟨w', inner, gap, hinput, hw', hgap, hinner, hnested, -⟩ := h v hextract
    have hsound := sound_of_nested hinner hnested hgap
    -- the text has only one reading
    obtain rfl : w = w' := by
      rw [← takeWhile_render_opens hw ts, hinput, takeWhile_render_opens hw']
    have hts' : ∀ t ∈ inner ++ .closes .brace :: gap, ReadToken t :=
      fun t ht => (hsound.escapes t ht).mono fun _ => .inl
    have hopen : ReadToken (.opens .brace) := trivial
    have heq := render_injective (fun _ => IsReadQuad.length)
      (List.forall_mem_cons.2 ⟨hopen, hts⟩) (List.forall_mem_cons.2 ⟨hopen, hts'⟩)
      (List.append_cancel_left hinput)
    rw [(List.cons.inj heq).2]
    exact hsound
  · intro h v hextract
    obtain ⟨w, ts, hw, hts, rfl, hv⟩ := extractJsonStringField_eq_some.1 hextract
    obtain ⟨⟨hdepth, hnone⟩, hanswer⟩ := answers_of_lastAnswer hv
    exact oneObject_of_sound hw hv (h w ts hw hts rfl ⟨hdepth, hnone, List.ne_nil_of_mem hanswer⟩)

/-- A bracket closes the brace: the scanner takes a value from a text that is no object. -/
theorem malformed_read :
    extractJsonStringField "\x7b\"a\":\"x\"]".toList "a".toList = some "x".toList ∧
      ¬ OneObject "a".toList "x".toList "\x7b\"a\":\"x\"]".toList := by
  refine ⟨by decide +kernel, ?_⟩
  rintro ⟨w, inner, gap, hinput, -⟩
  have hmem : '}' ∈ w ++ render (.opens .brace :: (inner ++ .closes .brace :: gap)) := by
    simp [render_append, Token.text, Bracket.closing]
  rw [← hinput] at hmem
  revert hmem
  decide

end Wkp.Cli
