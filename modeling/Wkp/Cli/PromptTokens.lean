import Wkp.Cli.PromptHook

/-!
# The prompt hook's reader on tokens

What `extract_json_string_field` does with a text that is a sequence of tokens, and that it reads no
other.

* `depthAfter` : the depth that the brackets leave, as the scanner counts it.
* `answers` : what stands behind the keys of the field.
* `extractJsonStringField_render` : the function on tokens.
* `extractJsonStringField_eq_some` : the texts that it reads.
* `lastAnswer_wrapI32` : what it makes of brackets that are nested too deep for 32 bits.
-/

namespace Wkp.Cli

open Rust Json

/-- A token that the scanner passes. -/
abbrev ReadToken (t : Token) : Prop := t.Ok IsReadQuad

/-- A blank between a key, its colon and its value. -/
def isSpace : Token → Bool
  | .other c => isAsciiWhitespace c
  | _ => false

/-- The tokens behind the colon that follows, and behind its blanks. -/
def behindColon (ts : List Token) : Option (List Token) :=
  match ts.dropWhile isSpace with
  | .other c :: rest => if c = ':' then some (rest.dropWhile isSpace) else none
  | _ => none

section Depth

-- how a depth is stored
variable (wrap : ℤ → ℤ)

/-- The depth that the brackets leave; none if it falls below zero. -/
def depthAfter : List Token → ℤ → Option ℤ
  | [], d => some d
  | .opens _ :: ts, d => depthAfter ts (wrap (d + 1))
  | .closes _ :: ts, d => if wrap (d - 1) < 0 then none else depthAfter ts (wrap (d - 1))
  | .literal _ :: ts, d => depthAfter ts d
  | .other _ :: ts, d => depthAfter ts d

/-- What stands behind the keys that read as the field at depth one, in order: the text of a string,
or nothing.  A string that is the value of the field is no key. -/
def answers (field : Str) : List Token → ℤ → Bool → List (Option Str)
  | [], _, _ => []
  | .opens _ :: ts, d, value => answers field ts (wrap (d + 1)) value
  | .closes _ :: ts, d, value => answers field ts (wrap (d - 1)) value
  | .other _ :: ts, d, value => answers field ts d value
  | .literal _ :: ts, d, true => answers field ts d false
  | .literal s :: ts, d, false =>
    if d = 1 ∧ readEach s = field then
      match behindColon ts with
      | none => answers field ts d false
      | some (.literal v :: _) => some (readEach v) :: answers field ts d true
      | some _ => none :: answers field ts d false
    else answers field ts d false

/-- The last answer, where the brackets are counted as closed and every answer is a string. -/
def lastAnswer (field : Str) (ts : List Token) (d : ℤ) (value : Bool) (found : Option Str) :
    Option Str :=
  if depthAfter wrap ts d = some 0 ∧ none ∉ answers wrap field ts d value then
    (answers wrap field ts d value).getLast?.getD found
  else none

end Depth

section Steps

variable (wrap : ℤ → ℤ) (field : Str) (b : Bracket) (c : Char) (s : List Piece) (ts : List Token)
  (d : ℤ) (value : Bool) (found : Option Str)

@[simp] theorem lastAnswer_nil :
    lastAnswer wrap field [] d value found = if d ≠ 0 then none else found := by
  simp [lastAnswer, depthAfter, answers]

@[simp] theorem lastAnswer_opens :
    lastAnswer wrap field (.opens b :: ts) d value found =
      lastAnswer wrap field ts (wrap (d + 1)) value found := rfl

@[simp] theorem lastAnswer_closes : lastAnswer wrap field (.closes b :: ts) d value found =
    if wrap (d - 1) < 0 then none else lastAnswer wrap field ts (wrap (d - 1)) value found := by
  simp only [lastAnswer, depthAfter, answers]
  split_ifs <;> simp_all

@[simp] theorem lastAnswer_other :
    lastAnswer wrap field (.other c :: ts) d value found = lastAnswer wrap field ts d value found := rfl

@[simp] theorem lastAnswer_value :
    lastAnswer wrap field (.literal s :: ts) d true found = lastAnswer wrap field ts d false found := rfl

variable {wrap field s ts d}

theorem lastAnswer_literal (h : ¬ (d = 1 ∧ readEach s = field) ∨ behindColon ts = none) :
    lastAnswer wrap field (.literal s :: ts) d false found = lastAnswer wrap field ts d false found := by
  have hanswers : answers wrap field (.literal s :: ts) d false = answers wrap field ts d false := by
    rw [answers]
    split_ifs with hkey
    · rw [h.resolve_left (not_not.2 hkey)]
    · rfl
  rw [lastAnswer, lastAnswer, hanswers]
  rfl

theorem lastAnswer_key {v : List Piece} {rest : List Token} (hkey : d = 1 ∧ readEach s = field)
    (hcolon : behindColon ts = some (.literal v :: rest)) :
    lastAnswer wrap field (.literal s :: ts) d false found =
      lastAnswer wrap field ts d true (some (readEach v)) := by
  have hanswers : answers wrap field (.literal s :: ts) d false =
      some (readEach v) :: answers wrap field ts d true := by
    rw [answers, if_pos hkey, hcolon]
  have hnone : none ∈ some (readEach v) :: answers wrap field ts d true ↔
      none ∈ answers wrap field ts d true := by simp
  rw [lastAnswer, lastAnswer, hanswers, List.getLast?_cons, Option.getD_some]
  simp only [hnone]
  rfl

theorem lastAnswer_key_none {rest : List Token} (hkey : d = 1 ∧ readEach s = field)
    (hcolon : behindColon ts = some rest) (hrest : ∀ v rest', rest ≠ .literal v :: rest') :
    lastAnswer wrap field (.literal s :: ts) d false found = none := by
  have hanswers : none ∈ answers wrap field (.literal s :: ts) d false := by
    rw [answers, if_pos hkey, hcolon]
    split
    · rename_i heq
      cases heq
    · rename_i v rest' heq
      exact absurd (Option.some.inj heq) (hrest v rest')
    · exact List.mem_cons_self
  rw [lastAnswer, if_neg fun h => h.2 hanswers]

end Steps

theorem head?_render {ts : List Token} (h : ∀ t ∈ ts, ReadToken t) {c : Char}
    (hc : (render ts).head? = some c) :
    ∃ t rest, ts = t :: rest ∧ (t = .other c ∧ isOther c = true ∨
      (∃ b : Bracket, t = .opens b ∧ c = b.opening ∨ t = .closes b ∧ c = b.closing) ∨
      ∃ s, t = .literal s ∧ c = '"') := by
  rcases ts with _ | ⟨t, rest⟩
  · cases hc
  refine ⟨t, rest, rfl, ?_⟩
  have ht := h t List.mem_cons_self
  cases t with
  | opens b => exact .inr (.inl ⟨b, .inl ⟨rfl, (Option.some.inj hc).symm⟩⟩)
  | closes b => exact .inr (.inl ⟨b, .inr ⟨rfl, (Option.some.inj hc).symm⟩⟩)
  | literal s => exact .inr (.inr ⟨s, rfl, (Option.some.inj hc).symm⟩)
  | other d =>
    obtain rfl := Option.some.inj hc
    exact .inl ⟨rfl, ht⟩

theorem exists_literal_of_head? {ts : List Token} (h : ∀ t ∈ ts, ReadToken t)
    (hc : (render ts).head? = some '"') : ∃ s rest, ts = .literal s :: rest := by
  obtain ⟨t, rest, rfl, ht⟩ := head?_render h hc
  rcases ht with ⟨-, hother⟩ | ⟨b, ⟨-, hb⟩ | ⟨-, hb⟩⟩ | ⟨s, rfl, -⟩
  · cases hother
  · cases b <;> cases hb
  · cases b <;> cases hb
  · exact ⟨s, rest, rfl⟩

theorem takeWhile_render {ts : List Token} (h : ∀ t ∈ ts, ReadToken t) :
    (render ts).takeWhile isAsciiWhitespace = render (ts.takeWhile isSpace) := by
  induction ts with
  | nil => rfl
  | cons t ts ih =>
    rw [List.forall_mem_cons] at h
    rw [List.takeWhile_cons]
    cases t with
    | other c =>
      rw [render_cons, Token.text, List.singleton_append, List.takeWhile_cons, ih h.2]
      show (if isAsciiWhitespace c = true then _ else _) =
        render (if isAsciiWhitespace c = true then _ else _)
      split_ifs <;> rfl
    | opens b => cases b <;> rfl
    | closes b => cases b <;> rfl
    | literal s => rfl

theorem ascii_of_isAsciiWhitespace {c : Char} (h : isAsciiWhitespace c = true) : c.utf8Size = 1 := by
  simp only [isAsciiWhitespace, Bool.or_eq_true, decide_eq_true_eq] at h
  rcases h with (((rfl | rfl) | rfl) | rfl) | rfl <;> rfl

theorem skipWhitespace_append (p t : Str) :
    skipWhitespace (p ++ t) (byteLength p) = byteLength (p ++ t.takeWhile isAsciiWhitespace) := by
  rw [skipWhitespace, textFrom_append, byteLength_append,
    byteLength_of_ascii fun c hc => ascii_of_isAsciiWhitespace (List.mem_takeWhile_imp hc)]

theorem charAt_skipWhitespace_append (p t : Str) :
    charAt (p ++ t) (skipWhitespace (p ++ t) (byteLength p)) =
      (t.dropWhile isAsciiWhitespace).head? := by
  have hsplit : p ++ t =
      (p ++ t.takeWhile isAsciiWhitespace) ++ t.dropWhile isAsciiWhitespace := by
    rw [List.append_assoc, List.takeWhile_append_dropWhile]
  rw [skipWhitespace_append]
  conv_lhs => rw [hsplit]
  rw [charAt_append]

theorem skipWhitespace_render (p : Str) {ts : List Token} (h : ∀ t ∈ ts, ReadToken t) :
    skipWhitespace (p ++ render ts) (byteLength p) =
      byteLength (p ++ render (ts.takeWhile isSpace)) := by
  rw [skipWhitespace_append, takeWhile_render h]

theorem charAt_skipWhitespace (p : Str) {ts : List Token} (h : ∀ t ∈ ts, ReadToken t) :
    charAt (p ++ render ts) (skipWhitespace (p ++ render ts) (byteLength p)) =
      (render (ts.dropWhile isSpace)).head? := by
  have hsplit : p ++ render ts =
      (p ++ render (ts.takeWhile isSpace)) ++ render (ts.dropWhile isSpace) := by
    rw [List.append_assoc, ← render_append, List.takeWhile_append_dropWhile]
  rw [skipWhitespace_render p h, hsplit, charAt_append]

theorem lastAnswer_others {wrap : ℤ → ℤ} {us : List Token} (h : ∀ u ∈ us, ∃ c, u = .other c)
    (field : Str) (ts : List Token) (d : ℤ) (value : Bool) (found : Option Str) :
    lastAnswer wrap field (us ++ ts) d value found = lastAnswer wrap field ts d value found := by
  induction us with
  | nil => rfl
  | cons u us ih =>
    obtain ⟨⟨c, rfl⟩, hus⟩ := List.forall_mem_cons.1 h
    exact (lastAnswer_other ..).trans (ih hus)

theorem exists_other_of_isSpace {t : Token} (h : isSpace t = true) : ∃ c, t = .other c := by
  cases t with
  | other c => exact ⟨c, rfl⟩
  | opens b => cases h
  | closes b => cases h
  | literal s => cases h

theorem behindColon_eq_some {ts r : List Token} (h : behindColon ts = some r) :
    ∃ rest, ts.dropWhile isSpace = .other ':' :: rest ∧ r = rest.dropWhile isSpace := by
  rw [behindColon] at h
  split at h
  · rename_i c rest hdrop
    split_ifs at h with hc
    exact ⟨rest, hc ▸ hdrop, (Option.some.inj h).symm⟩
  · cases h

theorem head?_dropWhile_of_behindColon_eq_none {ts : List Token} (hts : ∀ t ∈ ts, ReadToken t)
    (h : behindColon ts = none) : (render (ts.dropWhile isSpace)).head? ≠ some ':' := by
  intro hhead
  obtain ⟨t, rest, hdrop, ht⟩ :=
    head?_render (fun t ht => hts t (List.dropWhile_subset _ ht)) hhead
  rcases ht with ⟨rfl, -⟩ | ⟨b, ⟨-, hb⟩ | ⟨-, hb⟩⟩ | ⟨s, -, hs⟩
  · rw [behindColon, hdrop] at h
    cases h
  · cases b <;> cases hb
  · cases b <;> cases hb
  · cases hs

theorem forall_mem_dropWhile {ts : List Token} (h : ∀ t ∈ ts, ReadToken t) :
    ∀ t ∈ ts.dropWhile isSpace, ReadToken t :=
  fun t ht => h t (List.dropWhile_subset _ ht)

/-- The scanner passes the blanks around a colon as the tokens do. -/
theorem skip_colon (p : Str) {ts r : List Token} (hts : ∀ t ∈ ts, ReadToken t)
    (h : behindColon ts = some r) :
    charAt (p ++ render ts) (skipWhitespace (p ++ render ts) (byteLength p)) = some ':' ∧
      ∃ us, ts = us ++ r ∧ (∀ u ∈ us, ∃ c, u = .other c) ∧
        skipWhitespace (p ++ render ts) (skipWhitespace (p ++ render ts) (byteLength p) + 1) =
          byteLength (p ++ render us) := by
  obtain ⟨rest, hdrop, rfl⟩ := behindColon_eq_some h
  have hrest : ∀ t ∈ rest, ReadToken t := fun t ht => by
    refine forall_mem_dropWhile hts t ?_
    rw [hdrop]
    exact List.mem_cons_of_mem _ ht
  refine ⟨by rw [charAt_skipWhitespace p hts, hdrop]; rfl,
    ts.takeWhile isSpace ++ .other ':' :: rest.takeWhile isSpace, ?_, ?_, ?_⟩
  · rw [List.append_assoc, List.cons_append, List.takeWhile_append_dropWhile, ← hdrop,
      List.takeWhile_append_dropWhile]
  · intro u hu
    rcases List.mem_append.1 hu with hu | hu
    · exact exists_other_of_isSpace (List.mem_takeWhile_imp hu)
    · rcases List.mem_cons.1 hu with rfl | hu
      · exact ⟨':', rfl⟩
      · exact exists_other_of_isSpace (List.mem_takeWhile_imp hu)
  · -- the text up to the colon
    have hcolon : skipWhitespace (p ++ render ts) (byteLength p) + 1 =
        byteLength (p ++ render (ts.takeWhile isSpace ++ [.other ':'])) := by
      rw [skipWhitespace_render p hts, render_append, ← List.append_assoc,
        byteLength_append (p ++ render _)]
      rfl
    have htext : p ++ render ts =
        (p ++ render (ts.takeWhile isSpace ++ [.other ':'])) ++ render rest := by
      rw [List.append_assoc, ← render_append, List.append_assoc, List.singleton_append, ← hdrop,
        List.takeWhile_append_dropWhile]
    rw [hcolon, htext, skipWhitespace_render _ hrest, List.append_assoc, ← render_append,
      List.append_assoc, List.singleton_append]

variable {field : Str}

/-! ### A round of the scanner -/

section Rounds

variable (fuel : ℕ) (p : Str) (b : Bracket) (ts : List Token) (d : ℤ) (found : Option Str)

theorem extractLoop_opens :
    extractLoop (p ++ render (.opens b :: ts)) field (fuel + 1) (byteLength p) d found =
      extractLoop (p ++ render (.opens b :: ts)) field fuel (byteLength (p ++ render [.opens b]))
        (wrapI32 (d + 1)) found := by
  have hlen : byteLength (render [.opens b]) = 1 := by cases b <;> rfl
  rw [extractLoop, charAt_append, byteLength_append p, hlen]
  cases b <;> simp [Token.text, Bracket.opening]

theorem extractLoop_closes :
    extractLoop (p ++ render (.closes b :: ts)) field (fuel + 1) (byteLength p) d found =
      if wrapI32 (d - 1) < 0 then none
      else extractLoop (p ++ render (.closes b :: ts)) field fuel
        (byteLength (p ++ render [.closes b])) (wrapI32 (d - 1)) found := by
  have hlen : byteLength (render [.closes b]) = 1 := by cases b <;> rfl
  rw [extractLoop, charAt_append, byteLength_append p, hlen]
  cases b <;> simp [Token.text, Bracket.closing]

theorem extractLoop_other {c : Char} (hc : isOther c = true) :
    extractLoop (p ++ render (.other c :: ts)) field (fuel + 1) (byteLength p) d found =
      extractLoop (p ++ render (.other c :: ts)) field fuel (byteLength (p ++ render [.other c]))
        d found := by
  have hne : (((c ≠ '"' ∧ c ≠ '{') ∧ c ≠ '}') ∧ c ≠ '[') ∧ c ≠ ']' := by simpa [isOther] using hc
  rw [extractLoop, charAt_append, byteLength_append p]
  simp [Token.text, hne]

variable {ts d} {s : List Piece} (hs : ReadToken (.literal s)) (hts : ∀ t ∈ ts, ReadToken t)

include hs

theorem readJsonString_literal : readJsonString (p ++ render (.literal s :: ts)) (byteLength p) =
    some (readEach s, byteLength (p ++ quoted s)) :=
  readJsonString_eq_some.2 ⟨s, render ts, hs, rfl, rfl, rfl⟩

include hts

theorem extractLoop_literal (h : ¬ (d = 1 ∧ readEach s = field) ∨ behindColon ts = none) :
    extractLoop (p ++ render (.literal s :: ts)) field (fuel + 1) (byteLength p) d found =
      extractLoop (p ++ render (.literal s :: ts)) field fuel (byteLength (p ++ render [.literal s]))
        d found := by
  have hhead : (render (.literal s :: ts)).head? = some '"' := rfl
  have htext : p ++ render (.literal s :: ts) = (p ++ quoted s) ++ render ts := by
    rw [render_cons, ← List.append_assoc]
    rfl
  have hstop : p ++ render [.literal s] = p ++ quoted s := by simp [Token.text]
  rw [extractLoop, charAt_append, hhead, hstop]
  simp only [↓reduceIte, readJsonString_literal p hs]
  refine if_neg fun hfound => ?_
  rcases h with hkey | hbehind
  · exact hkey ⟨hfound.1, hfound.2.2⟩
  · have hcolon := hfound.2.1
    rw [htext, charAt_skipWhitespace (p ++ quoted s) hts] at hcolon
    exact head?_dropWhile_of_behindColon_eq_none hts hbehind hcolon

/-- A key of the field, and what stands behind its colon. -/
theorem extractLoop_field {r : List Token} (hkey : d = 1 ∧ readEach s = field)
    (hbehind : behindColon ts = some r) : ∃ us, ts = us ++ r ∧ (∀ u ∈ us, ∃ c, u = .other c) ∧
      extractLoop (p ++ render (.literal s :: ts)) field (fuel + 1) (byteLength p) d found =
        if (render r).head? ≠ some '"' then none
        else (readJsonString (p ++ quoted s ++ render us ++ render r)
          (byteLength (p ++ quoted s ++ render us))).bind fun val =>
            extractLoop (p ++ render (.literal s :: ts)) field fuel val.2 d (some val.1) := by
  have hhead : (render (.literal s :: ts)).head? = some '"' := rfl
  have htext : p ++ render (.literal s :: ts) = (p ++ quoted s) ++ render ts := by
    rw [render_cons, ← List.append_assoc]
    rfl
  obtain ⟨hcolon, us, rfl, hus, hskip⟩ := skip_colon (p ++ quoted s) hts hbehind
  have hsplit : p ++ render (.literal s :: (us ++ r)) =
      (p ++ quoted s ++ render us) ++ render r := by
    rw [htext, render_append, ← List.append_assoc]
  refine ⟨us, rfl, hus, ?_⟩
  rw [← htext] at hcolon hskip
  rw [extractLoop, charAt_append, hhead]
  simp only [↓reduceIte, readJsonString_literal p hs]
  rw [if_pos ⟨hkey.1, hcolon, hkey.2⟩, hskip, hsplit, charAt_append]
  cases readJsonString (p ++ quoted s ++ render us ++ render r)
    (byteLength (p ++ quoted s ++ render us)) <;> rfl

theorem extractLoop_key {v : List Piece} {rest : List Token} (hv : ReadToken (.literal v))
    (hkey : d = 1 ∧ readEach s = field) (hbehind : behindColon ts = some (.literal v :: rest)) :
    ∃ us, ts = us ++ .literal v :: rest ∧ (∀ u ∈ us, ∃ c, u = .other c) ∧
      extractLoop (p ++ render (.literal s :: ts)) field (fuel + 1) (byteLength p) d found =
        extractLoop (p ++ render (.literal s :: ts)) field fuel
          (byteLength (p ++ render (.literal s :: (us ++ [.literal v])))) d (some (readEach v)) := by
  obtain ⟨us, hsplit, hus, hfield⟩ := extractLoop_field fuel p found hs hts hkey hbehind
  have hstop : p ++ render (.literal s :: (us ++ [.literal v])) =
      p ++ quoted s ++ render us ++ quoted v := by
    simp [Token.text, render_append]
  have hhead : (render (.literal v :: rest)).head? = some '"' := rfl
  refine ⟨us, hsplit, hus, ?_⟩
  rw [hfield, if_neg (not_not.2 hhead), readJsonString_literal _ hv, hstop, Option.bind_some]

theorem extractLoop_key_none {r : List Token} (hkey : d = 1 ∧ readEach s = field)
    (hbehind : behindColon ts = some r) (hr : ∀ v rest, r ≠ .literal v :: rest) :
    extractLoop (p ++ render (.literal s :: ts)) field (fuel + 1) (byteLength p) d found = none := by
  obtain ⟨us, hsplit, -, hfield⟩ := extractLoop_field fuel p found hs hts hkey hbehind
  rw [hfield]
  refine if_pos fun hquote => ?_
  have hread : ∀ t ∈ r, ReadToken t := fun t ht =>
    hts t (hsplit ▸ List.mem_append_right us ht)
  obtain ⟨v, rest, rfl⟩ := exists_literal_of_head? hread hquote
  exact hr v rest rfl

end Rounds

/-- **The scanner on tokens.** -/
theorem extractLoop_render {fuel : ℕ} {p : Str} {ts : List Token} {d : ℤ} {found : Option Str}
    (hts : ∀ t ∈ ts, ReadToken t) (hfuel : (render ts).length < fuel) :
    extractLoop (p ++ render ts) field fuel (byteLength p) d found =
      lastAnswer wrapI32 field ts d false found := by
  induction fuel generalizing p ts d found with
  | zero => cases hfuel
  | succ fuel ih =>
    -- a round passes some tokens, and the rest is as the induction says
    have hpass : ∀ (t : Token) (us rest : List Token) (d' : ℤ) (found' : Option Str),
        ts = t :: us ++ rest → extractLoop (p ++ render ts) field fuel
          (byteLength (p ++ render (t :: us))) d' found' =
            lastAnswer wrapI32 field rest d' false found' := by
      rintro t us rest d' found' rfl
      have hpos := List.length_pos_iff.2 (Token.text_ne_nil t)
      rw [render_append, render_cons, List.length_append, List.length_append] at hfuel
      rw [render_append, ← List.append_assoc]
      exact ih (fun t ht => hts t (List.mem_append_right _ ht)) (by omega)
    cases ts with
    | nil =>
      rw [extractLoop, charAt_append]
      simp
    | cons t ts =>
      obtain ⟨ht, hrest⟩ := List.forall_mem_cons.1 hts
      have hone := fun d' => hpass t [] ts d' found rfl
      cases t with
      | opens b => rw [extractLoop_opens, hone, lastAnswer_opens]
      | closes b => rw [extractLoop_closes, hone, lastAnswer_closes]
      | other c => rw [extractLoop_other _ _ _ _ _ ht, hone, lastAnswer_other]
      | literal s =>
        by_cases hkey : d = 1 ∧ readEach s = field
        · cases hbehind : behindColon ts with
          | none =>
            rw [extractLoop_literal _ _ _ ht hrest (.inr hbehind), hone,
              lastAnswer_literal _ (.inr hbehind)]
          | some r =>
            by_cases hr : ∃ v rest, r = .literal v :: rest
            · obtain ⟨v, rest, rfl⟩ := hr
              have hv : ReadToken (.literal v) := by
                obtain ⟨us, rfl, -⟩ := (skip_colon p hrest hbehind).2
                exact hrest _ (List.mem_append_right _ List.mem_cons_self)
              obtain ⟨us, hsplit, hus, hloop⟩ :=
                extractLoop_key fuel p found ht hrest hv hkey hbehind
              have hafter := hpass (.literal s) (us ++ [.literal v]) rest d (some (readEach v))
                (by simp [hsplit])
              rw [hloop, hafter, lastAnswer_key _ hkey hbehind, hsplit, lastAnswer_others hus,
                lastAnswer_value]
            · have hnone : ∀ v rest, r ≠ .literal v :: rest := fun v rest heq => hr ⟨v, rest, heq⟩
              rw [extractLoop_key_none _ _ _ ht hrest hkey hbehind hnone,
                lastAnswer_key_none _ hkey hbehind hnone]
        · rw [extractLoop_literal _ _ _ ht hrest (.inl hkey), hone,
            lastAnswer_literal _ (.inl hkey)]

theorem readToken_of_space {w : Str} (h : ∀ c ∈ w, isAsciiWhitespace c = true) :
    ∀ t ∈ w.map Token.other, ReadToken t := by
  intro t ht
  obtain ⟨c, hc, rfl⟩ := List.mem_map.1 ht
  have hspace := h c hc
  simp only [isAsciiWhitespace, Bool.or_eq_true, decide_eq_true_eq] at hspace
  rcases hspace with (((rfl | rfl) | rfl) | rfl) | rfl <;> rfl

/-- Behind a colon the scanner has passed tokens. -/
theorem exists_colon {p rest : Str}
    (h : charAt (p ++ rest) (skipWhitespace (p ++ rest) (byteLength p)) = some ':') :
    ∃ us u, (∀ t ∈ us, ReadToken t) ∧ rest = render us ++ u ∧
      skipWhitespace (p ++ rest) (skipWhitespace (p ++ rest) (byteLength p) + 1) =
        byteLength (p ++ render us) := by
  rw [charAt_skipWhitespace_append] at h
  obtain ⟨u, hdrop⟩ : ∃ u, rest.dropWhile isAsciiWhitespace = ':' :: u := by
    cases hrest : rest.dropWhile isAsciiWhitespace with
    | nil =>
      rw [hrest] at h
      cases h
    | cons c u =>
      rw [hrest] at h
      exact ⟨u, by rw [Option.some.inj h]⟩
  have hblank : ∀ s : Str, ∀ t ∈ (s.takeWhile isAsciiWhitespace).map Token.other, ReadToken t :=
    fun s => readToken_of_space fun c hc => List.mem_takeWhile_imp hc
  have hsplit : rest = rest.takeWhile isAsciiWhitespace ++ ':' :: u := by
    rw [← hdrop, List.takeWhile_append_dropWhile]
  have hrender : ∀ w w' : Str,
      render (w.map .other ++ .other ':' :: w'.map .other) = w ++ ':' :: w' := by
    intro w w'
    rw [render_append, render_cons, render_map_other, render_map_other]
    rfl
  refine ⟨(rest.takeWhile isAsciiWhitespace).map .other ++ .other ':' ::
    (u.takeWhile isAsciiWhitespace).map .other, u.dropWhile isAsciiWhitespace, ?_, ?_, ?_⟩
  · exact List.forall_mem_append.2 ⟨hblank rest, List.forall_mem_cons.2 ⟨rfl, hblank u⟩⟩
  · rw [hrender, List.append_assoc, List.cons_append, List.takeWhile_append_dropWhile, ← hsplit]
  · have hcolon : skipWhitespace (p ++ rest) (byteLength p) + 1 =
        byteLength (p ++ rest.takeWhile isAsciiWhitespace ++ [':']) := by
      rw [skipWhitespace_append, byteLength_append _ [':']]
      rfl
    have htext : p ++ rest = (p ++ rest.takeWhile isAsciiWhitespace ++ [':']) ++ u := by
      rw [List.append_assoc, List.append_assoc, List.singleton_append, ← hsplit]
    rw [hcolon, htext, skipWhitespace_append, hrender]
    simp only [List.append_assoc, List.singleton_append]

/-- A round that begins at a literal passes tokens. -/
theorem round_literal_passes {fuel : ℕ} {p t : Str} {d : ℤ} {found : Option Str} {v : Str}
    (h : extractLoop (p ++ '"' :: t) field (fuel + 1) (byteLength p) d found = some v) :
    ∃ us u found', (∀ t ∈ us, ReadToken t) ∧ '"' :: t = render us ++ u ∧
      extractLoop (p ++ '"' :: t) field fuel (byteLength (p ++ render us)) d found' = some v := by
  rw [extractLoop, charAt_append, List.head?_cons] at h
  simp only [↓reduceIte] at h
  cases hread : readJsonString (p ++ '"' :: t) (byteLength p) with
  | none =>
    rw [hread] at h
    cases h
  | some r =>
    obtain ⟨value, stop⟩ := r
    obtain ⟨ps, rest, hps, ht, rfl, rfl⟩ := readJsonString_eq_some.1 hread
    have hliteral : ReadToken (.literal ps) := hps
    have htext : p ++ '"' :: t = (p ++ quoted ps) ++ rest := by
      rw [ht, List.append_assoc]
    simp only [hread] at h
    split_ifs at h with hkey
    · -- a key, and its value
      rw [htext] at h hkey
      obtain ⟨us, u, hus, rfl, hskip⟩ := exists_colon hkey.2.1
      rw [hskip, ← List.append_assoc] at h
      cases hval : readJsonString (p ++ quoted ps ++ render us ++ u)
          (byteLength (p ++ quoted ps ++ render us)) with
      | none =>
        rw [hval] at h
        cases h
      | some r =>
        obtain ⟨val, valEnd⟩ := r
        obtain ⟨qs, rest, hqs, rfl, rfl, rfl⟩ := readJsonString_eq_some.1 hval
        have hvalue : ReadToken (.literal qs) := hqs
        rw [hval] at h
        refine ⟨.literal ps :: (us ++ [.literal qs]), rest, some (readEach qs), ?_, ?_, ?_⟩
        · exact List.forall_mem_cons.2 ⟨hliteral,
            List.forall_mem_append.2 ⟨hus, List.forall_mem_singleton.2 hvalue⟩⟩
        · rw [ht]
          simp [Token.text, render_append]
        · rw [ht]
          simpa [Token.text, render_append] using h
    · refine ⟨[.literal ps], rest, found, List.forall_mem_singleton.2 hliteral, ?_, ?_⟩
      · simpa [Token.text] using ht
      · simpa [Token.text] using h

/-- A round passes tokens. -/
theorem round_passes {fuel : ℕ} {p t : Str} {c : Char} {d : ℤ} {found : Option Str} {v : Str}
    (h : extractLoop (p ++ c :: t) field (fuel + 1) (byteLength p) d found = some v) :
    ∃ us u d' found', (∀ t ∈ us, ReadToken t) ∧ c :: t = render us ++ u ∧
      extractLoop (p ++ c :: t) field fuel (byteLength (p ++ render us)) d' found' = some v := by
  have hone : ∀ (u : Token) (d' : ℤ), u.text = [c] → ReadToken u →
      extractLoop (p ++ c :: t) field fuel (byteLength p + c.utf8Size) d' found = some v →
      ∃ us u d' found', (∀ t ∈ us, ReadToken t) ∧ c :: t = render us ++ u ∧
        extractLoop (p ++ c :: t) field fuel (byteLength (p ++ render us)) d' found' = some v := by
    intro u d' hu hok hloop
    refine ⟨[u], t, d', found, List.forall_mem_singleton.2 hok, ?_, ?_⟩
    · rw [render_cons, hu]
      rfl
    · rw [render_cons, hu, byteLength_append]
      exact hloop
  by_cases hquote : c = '"'
  · subst hquote
    obtain ⟨us, u, found', hus, ht, hloop⟩ := round_literal_passes h
    exact ⟨us, u, d, found', hus, ht, hloop⟩
  rw [extractLoop, charAt_append, List.head?_cons] at h
  simp only [if_neg hquote] at h
  split_ifs at h with hopen hclose hneg
  · rcases hopen with rfl | rfl
    · exact hone (.opens .brace) _ rfl trivial h
    · exact hone (.opens .square) _ rfl trivial h
  · rcases hclose with rfl | rfl
    · exact hone (.closes .brace) _ rfl trivial h
    · exact hone (.closes .square) _ rfl trivial h
  · refine hone (.other c) d rfl ?_ h
    show isOther c = true
    simp only [not_or] at hopen hclose
    simp [isOther, hquote, hopen, hclose]

/-- A text that the scanner gets through is one of tokens. -/
theorem exists_tokens_of_extractLoop {fuel : ℕ} {p t : Str} {d : ℤ} {found : Option Str} {v : Str}
    (h : extractLoop (p ++ t) field fuel (byteLength p) d found = some v) :
    ∃ ts, (∀ u ∈ ts, ReadToken u) ∧ t = render ts := by
  induction fuel generalizing p t d found with
  | zero => cases h
  | succ fuel ih =>
    cases t with
    | nil => exact ⟨[], nofun, rfl⟩
    | cons c t =>
      obtain ⟨us, u, d', found', hus, ht, hloop⟩ := round_passes h
      rw [ht, ← List.append_assoc] at hloop
      obtain ⟨ts, hts, rfl⟩ := ih hloop
      exact ⟨us ++ ts, List.forall_mem_append.2 ⟨hus, hts⟩, ht.trans (render_append us ts).symm⟩

theorem length_render_lt (w : Str) (ts : List Token) :
    (render ts).length < (w ++ render ts).length + 1 := by
  rw [List.length_append]
  omega

theorem extractJsonStringField_render {w : Str} {ts : List Token}
    (hw : ∀ c ∈ w, isWhitespace c = true) (hts : ∀ t ∈ ts, ReadToken t) (field : Str) :
    extractJsonStringField (w ++ render (.opens .brace :: ts)) field =
      lastAnswer wrapI32 field ts 1 false none := by
  have htake : (w ++ render (.opens .brace :: ts)).takeWhile isWhitespace = w := by
    rw [render_cons, List.takeWhile_append_of_pos hw]
    exact List.append_nil w
  have hhead : (render (.opens .brace :: ts)).head? = some '{' := rfl
  have hts' : ∀ t ∈ (.opens .brace :: ts), ReadToken t := List.forall_mem_cons.2 ⟨trivial, hts⟩
  rw [extractJsonStringField]
  simp only [htake, charAt_append, hhead, ne_eq, not_true_eq_false, ↓reduceIte]
  exact extractLoop_render hts' (length_render_lt w _)

/-- **What the function reads.**  The text is whitespace and tokens, the first of them an opening
brace; the scanner gets through them, and the value is the last answer. -/
theorem extractJsonStringField_eq_some {input v : Str} :
    extractJsonStringField input field = some v ↔
      ∃ w ts, (∀ c ∈ w, isWhitespace c = true) ∧ (∀ t ∈ ts, ReadToken t) ∧
        input = w ++ render (.opens .brace :: ts) ∧
        lastAnswer wrapI32 field ts 1 false none = some v := by
  constructor
  · intro h
    have hread := h
    rw [extractJsonStringField] at h
    have hsplit : input = input.takeWhile isWhitespace ++ input.dropWhile isWhitespace :=
      List.takeWhile_append_dropWhile.symm
    have hw : ∀ c ∈ input.takeWhile isWhitespace, isWhitespace c = true :=
      fun c hc => List.mem_takeWhile_imp hc
    generalize input.takeWhile isWhitespace = w at h hsplit hw
    rw [hsplit] at h
    split_ifs at h with hbrace
    rw [not_not, charAt_append] at hbrace
    obtain ⟨ts, hts, htext⟩ := exists_tokens_of_extractLoop h
    rw [htext] at hsplit hbrace
    obtain ⟨t, ts, rfl, ht⟩ := head?_render hts hbrace
    obtain rfl : t = .opens .brace := by
      rcases ht with ⟨-, hother⟩ | ⟨b, ⟨rfl, hb⟩ | ⟨-, hb⟩⟩ | ⟨s, -, hs⟩
      · cases hother
      · cases b with
        | brace => rfl
        | square => cases hb
      · cases b <;> cases hb
      · cases hs
    have hts' := (List.forall_mem_cons.1 hts).2
    rw [hsplit, extractJsonStringField_render hw hts'] at hread
    exact ⟨w, ts, hw, hts', hsplit, hread⟩
  · rintro ⟨w, ts, hw, hts, rfl, h⟩
    rw [extractJsonStringField_render hw hts, h]

/-! ### The depth in 32 bits -/

/-- Without a bound the scanner counts as brackets are counted. -/
theorem depthAfter_natCast (ts : List Token) (n : ℕ) :
    depthAfter id ts n = (Brackets.depth Token.mark n ts).map Nat.cast := by
  induction ts generalizing n with
  | nil => rfl
  | cons t ts ih =>
    cases t with
    | opens b =>
      rw [depthAfter, Brackets.depth_opens ts n (Token.mark_opens b), ← ih, Nat.cast_add,
        Nat.cast_one]
      rfl
    | closes b =>
      cases n with
      | zero =>
        rw [Brackets.depth_closes_zero ts (Token.mark_closes b)]
        rfl
      | succ n =>
        rw [depthAfter, Brackets.depth_closes ts n (Token.mark_closes b), ← ih, id_eq, Nat.cast_add,
          Nat.cast_one, add_sub_cancel_right, if_neg (by omega)]
    | literal s => rw [depthAfter, Brackets.depth_other ts n (Token.mark_literal s), ih]
    | other c => rw [depthAfter, Brackets.depth_other ts n (Token.mark_other c), ih]

theorem depthAfter_eq_some {ts : List Token} {n m : ℕ} :
    depthAfter id ts n = some (m : ℤ) ↔ Brackets.depth Token.mark n ts = some m := by
  rw [depthAfter_natCast, Option.map_eq_some_iff]
  constructor
  · rintro ⟨k, hk, hcast⟩
    rw [hk, Nat.cast_injective hcast]
  · exact fun h => ⟨m, h, rfl⟩

/-- **The depth in 32 bits.**  Where the brackets lead back from more open ones than the bound, it
falls below zero. -/
theorem depthAfter_wrapI32 {ts : List Token} {n m : ℕ}
    (h : Brackets.depth Token.mark n ts = some m) (hm : m ≤ boundI32) :
    depthAfter wrapI32 ts (wrapI32 n) =
      if Brackets.peak Token.mark n ts ≤ boundI32 then some (wrapI32 m) else none := by
  induction ts generalizing n with
  | nil =>
    obtain rfl := Option.some.inj h
    exact (if_pos hm).symm
  | cons t ts ih =>
    cases t with
    | opens b =>
      rw [Brackets.depth_opens ts n (Token.mark_opens b)] at h
      rw [depthAfter, wrapI32_add_one, Brackets.peak_opens ts n (Token.mark_opens b), ← ih h,
        Nat.cast_add, Nat.cast_one]
    | closes b =>
      cases n with
      | zero =>
        rw [Brackets.depth_closes_zero ts (Token.mark_closes b)] at h
        cases h
      | succ n =>
        rw [Brackets.depth_closes ts n (Token.mark_closes b)] at h
        rw [depthAfter, wrapI32_sub_one, Brackets.peak_closes ts n (Token.mark_closes b),
          Nat.cast_add, Nat.cast_one, add_sub_cancel_right, ih h]
        have hle : n ≤ Brackets.peak Token.mark n ts := Brackets.le_peak ts n
        by_cases hpeak : Brackets.peak Token.mark n ts ≤ boundI32
        · -- one bracket more was open before this one closed
          have hneg := wrapI32_neg_iff (hle.trans hpeak)
          rw [if_pos hpeak]
          by_cases hn : n = boundI32
          · rw [if_pos (hneg.2 hn), if_neg (by omega)]
          · rw [if_neg fun h => hn (hneg.1 h), if_pos (by omega)]
        · rw [if_neg hpeak, ite_self, if_neg (by omega)]
    | literal s =>
      rw [Brackets.depth_other ts n (Token.mark_literal s)] at h
      rw [depthAfter, Brackets.peak_other ts n (Token.mark_literal s), ih h]
    | other c =>
      rw [Brackets.depth_other ts n (Token.mark_other c)] at h
      rw [depthAfter, Brackets.peak_other ts n (Token.mark_other c), ih h]

theorem answers_wrapI32 (field : Str) {ts : List Token} {n m : ℕ}
    (h : Brackets.depth Token.mark n ts = some m) (hpeak : Brackets.peak Token.mark n ts ≤ boundI32)
    (value : Bool) : answers wrapI32 field ts (wrapI32 n) value = answers id field ts n value := by
  induction ts generalizing n value with
  | nil => rw [answers, answers]
  | cons t ts ih =>
    cases t with
    | opens b =>
      rw [Brackets.depth_opens ts n (Token.mark_opens b)] at h
      rw [Brackets.peak_opens ts n (Token.mark_opens b)] at hpeak
      have hrest := ih h hpeak value
      rw [Nat.cast_add, Nat.cast_one] at hrest
      rw [answers, answers, wrapI32_add_one, hrest, id_eq]
    | closes b =>
      cases n with
      | zero =>
        rw [Brackets.depth_closes_zero ts (Token.mark_closes b)] at h
        cases h
      | succ n =>
        rw [Brackets.depth_closes ts n (Token.mark_closes b)] at h
        rw [Brackets.peak_closes ts n (Token.mark_closes b)] at hpeak
        have hrest := ih h ((le_max_right _ _).trans hpeak) value
        rw [answers, answers, wrapI32_sub_one, id_eq, Nat.cast_add, Nat.cast_one,
          add_sub_cancel_right, hrest]
    | literal s =>
      rw [Brackets.depth_other ts n (Token.mark_literal s)] at h
      rw [Brackets.peak_other ts n (Token.mark_literal s)] at hpeak
      -- a key is looked for at depth one, as it is stored
      have hone : wrapI32 n = 1 ↔ (n : ℤ) = 1 := by
        rw [wrapI32_eq_one_iff ((Brackets.le_peak ts n).trans hpeak), Nat.cast_eq_one]
      cases value with
      | true => rw [answers, answers, ih h hpeak]
      | false => simp only [answers, hone, ih h hpeak]
    | other c =>
      rw [Brackets.depth_other ts n (Token.mark_other c)] at h
      rw [Brackets.peak_other ts n (Token.mark_other c)] at hpeak
      rw [answers, answers, ih h hpeak]

/-- **What 32 bits make of brackets that are closed.** -/
theorem lastAnswer_wrapI32 (field : Str) {ts : List Token} {n : ℕ}
    (h : Brackets.depth Token.mark n ts = some 0) (value : Bool) (found : Option Str) :
    lastAnswer wrapI32 field ts (wrapI32 n) value found =
      if Brackets.peak Token.mark n ts ≤ boundI32 then lastAnswer id field ts n value found
      else none := by
  have hdepth := depthAfter_wrapI32 h (Nat.zero_le _)
  rw [lastAnswer, hdepth]
  by_cases hpeak : Brackets.peak Token.mark n ts ≤ boundI32
  · have hid : depthAfter id ts n = some 0 := depthAfter_eq_some.2 h
    rw [if_pos hpeak, if_pos hpeak, answers_wrapI32 field h hpeak, lastAnswer, hid]
    rfl
  · rw [if_neg hpeak, if_neg hpeak, if_neg fun h => nomatch h.1]

end Wkp.Cli
