import Wkp.Lib.Str

/-!
# Regular expressions

Patterns over characters with a leftmost, first-preferred match, as a backtracking matcher finds it.

* `Regex.run` : the ways a pattern matches at a place, the preferred one first.
* `Regex.findIter` : the successive matches in a text that do not overlap.
* `Regex.firsts`, `Regex.lasts`, `Regex.follows` : which characters a match can begin with, end with
  and hold next to each other.
* `Regex.findIter_append` : matches that cannot cross a place are those on either side of it.
-/

open Rust

/-- A class of characters, as the ranges that are in it. -/
abbrev CharClass := List (Char × Char)

namespace CharClass

/-- The character is in the class. -/
def holds (k : CharClass) (c : Char) : Bool :=
  k.any fun r => r.1.toNat ≤ c.toNat && c.toNat ≤ r.2.toNat

/-- No character is in both. -/
def disjoint (k k' : CharClass) : Bool :=
  k.all fun r => k'.all fun r' => r.2.toNat < r'.1.toNat || r'.2.toNat < r.1.toNat

theorem holds_eq_false_of_disjoint {k k' : CharClass} (h : k.disjoint k' = true) {c : Char}
    (hc : k.holds c = true) : k'.holds c = false := by
  rw [Bool.eq_false_iff]
  intro hc'
  obtain ⟨r, hr, hrc⟩ := List.any_eq_true.1 hc
  obtain ⟨r', hr', hrc'⟩ := List.any_eq_true.1 hc'
  have hd := List.all_eq_true.1 (List.all_eq_true.1 h r hr) r' hr'
  simp only [Bool.and_eq_true, Bool.or_eq_true, decide_eq_true_eq] at hrc hrc' hd
  omega

/-- The class of a single character. -/
def single (c : Char) : CharClass := [(c, c)]

/-- The `White_Space` characters. -/
def space : CharClass :=
  [('\x09', '\x0d'), (' ', ' '), ('\u0085', '\u0085'), ('\u00a0', '\u00a0'), ('\u1680', '\u1680'),
    ('\u2000', '\u200a'), ('\u2028', '\u2029'), ('\u202f', '\u202f'), ('\u205f', '\u205f'),
    ('\u3000', '\u3000')]

end CharClass

/-- A pattern. -/
inductive Regex
  /-- Nothing. -/
  | empty
  /-- A character of the class. -/
  | oneOf (k : CharClass)
  /-- As many characters of the class as there are, at least and at most these. -/
  | many (k : CharClass) (least : ℕ) (most : Option ℕ)
  /-- The edge of a word. -/
  | boundary
  /-- One pattern, then the other. -/
  | seq (a b : Regex)
  /-- One of two patterns, preferably the first. -/
  | alt (a b : Regex)
  /-- A pattern whose match is captured. -/
  | group (a : Regex)

namespace Regex

/-- The pattern that matches a text. -/
def literal (s : Str) : Regex := s.foldr (fun c r => seq (oneOf (.single c)) r) empty

/-- One of several texts, preferably the first. -/
def oneOfTexts : List Str → Regex
  | [] => empty
  | [s] => literal s
  | s :: ss => alt (literal s) (oneOfTexts ss)

/-- A pattern or nothing, preferably the pattern. -/
def optional (a : Regex) : Regex := alt a empty

/-- Several patterns, one after the other. -/
def sequence (rs : List Regex) : Regex := rs.foldr seq empty

/-! ### Matching -/

/-- A way to match: the text, what was captured of it, and what follows it. -/
structure Part where
  /-- The text. -/
  text : Str
  /-- The last capture. -/
  captured : Option Str
  /-- What follows. -/
  rest : Str
  deriving DecidableEq

/-- The ways to take characters of a class, more of them first. -/
def takes (k : CharClass) : ℕ → Option ℕ → Str → List Part
  | least, _, [] => if least = 0 then [⟨[], none, []⟩] else []
  | least, most, c :: s =>
    (if k.holds c ∧ most ≠ some 0 then
      (takes k (least - 1) (most.map (· - 1)) s).map fun p => { p with text := c :: p.text }
    else []) ++ if least = 0 then [⟨[], none, c :: s⟩] else []

variable (word : Char → Bool)

/-- The ways to match at a place, after `prev` and before `s`. -/
def run : Regex → Option Char → Str → List Part
  | empty, _, s => [⟨[], none, s⟩]
  | oneOf _, _, [] => []
  | oneOf k, _, c :: s => if k.holds c then [⟨[c], none, s⟩] else []
  | many k least most, _, s => takes k least most s
  | boundary, prev, s => if prev.any word ≠ s.head?.any word then [⟨[], none, s⟩] else []
  | seq a b, prev, s => (run a prev s).flatMap fun p =>
    (run b (p.text.getLast?.or prev) p.rest).map fun q =>
      ⟨p.text ++ q.text, q.captured.or p.captured, q.rest⟩
  | alt a b, prev, s => run a prev s ++ run b prev s
  | group a, prev, s => (run a prev s).map fun p => { p with captured := some p.text }

/-- A match in a text. -/
structure Match where
  /-- The text before it. -/
  before : Str
  /-- Its text. -/
  text : Str
  /-- What was captured of it. -/
  captured : Option Str
  /-- The text after it. -/
  after : Str
  deriving DecidableEq

/-- The text of a match, and what was captured of it. -/
def Match.what (m : Match) : Str × Option Str := (m.text, m.captured)

/-- The matches after the next `skip` characters, each at the first place after the one before it. -/
def findIter (r : Regex) : Str → ℕ → Str → List Match
  | before, skip, [] =>
    if skip = 0 then (r.run word before.getLast? []).head?.toList.map
      fun p => ⟨before, p.text, p.captured, p.rest⟩
    else []
  | before, skip + 1, c :: s => findIter r (before ++ [c]) skip s
  | before, 0, c :: s =>
    match r.run word before.getLast? (c :: s) with
    | [] => findIter r (before ++ [c]) 0 s
    | p :: _ => ⟨before, p.text, p.captured, p.rest⟩ ::
        findIter r (before ++ [c]) (p.text.length - 1) s

/-! ### What a match is made of -/

variable {word}

theorem text_append_rest_of_takes {k : CharClass} {least : ℕ} {most : Option ℕ} {s : Str} {p : Part}
    (h : p ∈ takes k least most s) : p.text ++ p.rest = s := by
  induction s generalizing least most p with
  | nil =>
    rw [takes] at h
    split_ifs at h
    · obtain rfl := List.mem_singleton.1 h
      rfl
    · cases h
  | cons c s ih =>
    rw [takes] at h
    rcases List.mem_append.1 h with h | h
    · split_ifs at h
      · obtain ⟨q, hq, rfl⟩ := List.mem_map.1 h
        exact congrArg (c :: ·) (ih hq)
      · cases h
    · split_ifs at h
      · obtain rfl := List.mem_singleton.1 h
        rfl
      · cases h

theorem text_append_rest {r : Regex} {prev : Option Char} {s : Str} {p : Part}
    (h : p ∈ r.run word prev s) : p.text ++ p.rest = s := by
  induction r generalizing prev s p with
  | empty =>
    obtain rfl := List.mem_singleton.1 h
    rfl
  | oneOf k =>
    cases s with
    | nil => cases h
    | cons c s =>
      rw [run] at h
      split_ifs at h
      · obtain rfl := List.mem_singleton.1 h
        rfl
      · cases h
  | many k least most => exact text_append_rest_of_takes h
  | boundary =>
    rw [run] at h
    split_ifs at h
    · obtain rfl := List.mem_singleton.1 h
      rfl
    · cases h
  | seq a b iha ihb =>
    obtain ⟨p₁, h₁, h⟩ := List.mem_flatMap.1 h
    obtain ⟨p₂, h₂, rfl⟩ := List.mem_map.1 h
    calc (p₁.text ++ p₂.text) ++ p₂.rest = p₁.text ++ (p₂.text ++ p₂.rest) := List.append_assoc ..
      _ = p₁.text ++ p₁.rest := by rw [ihb h₂]
      _ = s := iha h₁
  | alt a b iha ihb =>
    rcases List.mem_append.1 h with h | h
    · exact iha h
    · exact ihb h
  | group a iha =>
    obtain ⟨q, hq, rfl⟩ := List.mem_map.1 h
    exact (iha hq : q.text ++ q.rest = s)

/-- The pattern matches nothing, too. -/
def nullable : Regex → Bool
  | empty | boundary => true
  | oneOf _ => false
  | many _ least _ => least = 0
  | seq a b => a.nullable && b.nullable
  | alt a b => a.nullable || b.nullable
  | group a => a.nullable

/-- The characters that a match can begin with. -/
def firsts : Regex → List CharClass
  | empty | boundary => []
  | oneOf k | many k _ _ => [k]
  | seq a b => a.firsts ++ if a.nullable then b.firsts else []
  | alt a b => a.firsts ++ b.firsts
  | group a => a.firsts

/-- The characters that a match can end with. -/
def lasts : Regex → List CharClass
  | empty | boundary => []
  | oneOf k | many k _ _ => [k]
  | seq a b => (if b.nullable then a.lasts else []) ++ b.lasts
  | alt a b => a.lasts ++ b.lasts
  | group a => a.lasts

/-- The characters that can stand next to each other in a match. -/
def follows : Regex → List (CharClass × CharClass)
  | empty | boundary | oneOf _ => []
  | many k _ _ => [(k, k)]
  | seq a b => a.follows ++ b.follows ++ a.lasts.flatMap fun k => b.firsts.map fun k' => (k, k')
  | alt a b => a.follows ++ b.follows
  | group a => a.follows

/-- The character is in one of the classes. -/
def inSome (ks : List CharClass) (c : Char) : Bool := ks.any fun k => k.holds c

theorem inSome_append (ks ks' : List CharClass) (c : Char) :
    inSome (ks ++ ks') c = (inSome ks c || inSome ks' c) := List.any_append

theorem holds_of_mem_takes {k : CharClass} {least : ℕ} {most : Option ℕ} {s : Str} {p : Part}
    (h : p ∈ takes k least most s) : (∀ c ∈ p.text, k.holds c = true) ∧ least ≤ p.text.length := by
  induction s generalizing least most p with
  | nil =>
    rw [takes] at h
    split_ifs at h with hl
    · obtain rfl := List.mem_singleton.1 h
      exact ⟨nofun, hl.le⟩
    · cases h
  | cons c s ih =>
    rw [takes] at h
    rcases List.mem_append.1 h with h | h
    · split_ifs at h with hc
      · obtain ⟨q, hq, rfl⟩ := List.mem_map.1 h
        obtain ⟨hall, hle⟩ := ih hq
        exact ⟨List.forall_mem_cons.2 ⟨hc.1, hall⟩, by rw [List.length_cons]; omega⟩
      · cases h
    · split_ifs at h with hl
      · obtain rfl := List.mem_singleton.1 h
        exact ⟨nofun, hl.le⟩
      · cases h

/-- What the parts of a pattern say of a match. -/
structure Shaped (r : Regex) (t : Str) : Prop where
  /-- An empty one. -/
  empty : t = [] → r.nullable = true
  /-- Its first character. -/
  first : ∀ c ∈ t.head?, inSome r.firsts c = true
  /-- Its last character. -/
  last : ∀ c ∈ t.getLast?, inSome r.lasts c = true
  /-- Two characters next to each other. -/
  follow : ∀ u c d v, t = u ++ c :: d :: v →
    ∃ kk ∈ r.follows, kk.1.holds c = true ∧ kk.2.holds d = true

/-- Two characters next to each other are in the first text, in the second, or where they meet. -/
theorem append_eq_append_cons_cons {t t' u v : Str} {c d : Char} (h : t ++ t' = u ++ c :: d :: v) :
    (∃ v', t = u ++ c :: d :: v') ∨ (∃ u', t' = u' ++ c :: d :: v) ∨
      (t.getLast? = some c ∧ t'.head? = some d) := by
  rcases List.append_eq_append_iff.1 h with ⟨w, rfl, ht'⟩ | ⟨w, rfl, hw⟩
  · exact .inr (.inl ⟨w, ht'⟩)
  · cases w with
    | nil => exact .inr (.inl ⟨[], hw.symm⟩)
    | cons c' w =>
      obtain ⟨rfl, hw'⟩ := List.cons.inj hw
      cases w with
      | nil =>
        exact .inr (.inr ⟨List.getLast?_concat, (congrArg List.head? (hw' : d :: v = t')).symm⟩)
      | cons d' w =>
        obtain ⟨rfl, -⟩ := List.cons.inj hw'
        exact .inl ⟨w, rfl⟩

theorem Shaped.seq {a b : Regex} {t t' : Str} (ha : a.Shaped t) (hb : b.Shaped t') :
    (a.seq b).Shaped (t ++ t') where
  empty h := by
    obtain ⟨rfl, rfl⟩ := List.append_eq_nil_iff.1 h
    rw [nullable, ha.empty rfl, hb.empty rfl, Bool.and_self]
  first c hc := by
    rw [firsts, inSome_append, Bool.or_eq_true]
    cases t with
    | nil =>
      rw [ha.empty rfl, if_pos rfl]
      exact .inr (hb.first c hc)
    | cons d t => exact .inl (ha.first c hc)
  last c hc := by
    rw [lasts, inSome_append, Bool.or_eq_true]
    cases t' using List.reverseRecOn with
    | nil =>
      rw [hb.empty rfl, if_pos rfl]
      exact .inl (ha.last c (by rwa [List.append_nil] at hc))
    | append_singleton t' d _ =>
      refine .inr (hb.last c ?_)
      rw [← List.append_assoc, List.getLast?_concat] at hc
      rwa [List.getLast?_concat]
  follow u c d v h := by
    rw [follows]
    rcases append_eq_append_cons_cons h with ⟨v', rfl⟩ | ⟨u', rfl⟩ | ⟨hlast, hfirst⟩
    · obtain ⟨kk, hkk, hc⟩ := ha.follow u c d v' rfl
      exact ⟨kk, List.mem_append_left _ (List.mem_append_left _ hkk), hc⟩
    · obtain ⟨kk, hkk, hc⟩ := hb.follow u' c d v rfl
      exact ⟨kk, List.mem_append_left _ (List.mem_append_right _ hkk), hc⟩
    · obtain ⟨k, hk, hkc⟩ := List.any_eq_true.1 (ha.last c hlast)
      obtain ⟨k', hk', hkd⟩ := List.any_eq_true.1 (hb.first d hfirst)
      exact ⟨(k, k'), List.mem_append_right _
        (List.mem_flatMap.2 ⟨k, hk, List.mem_map_of_mem hk'⟩), hkc, hkd⟩

theorem shaped_of_takes {k : CharClass} {least : ℕ} {most : Option ℕ} {s : Str} {p : Part}
    (h : p ∈ takes k least most s) : (many k least most).Shaped p.text := by
  obtain ⟨hall, hle⟩ := holds_of_mem_takes h
  have hin : ∀ c ∈ p.text, inSome [k] c = true := fun c hc =>
    List.any_eq_true.2 ⟨k, List.mem_singleton_self k, hall c hc⟩
  refine ⟨fun he => ?_, fun c hc => hin c (List.mem_of_mem_head? hc),
    fun c hc => hin c (List.mem_of_mem_getLast? hc), fun u c d v hp => ?_⟩
  · rw [he, List.length_nil] at hle
    exact decide_eq_true (Nat.le_zero.1 hle)
  · rw [hp] at hall
    exact ⟨(k, k), List.mem_singleton_self _, hall c (by simp), hall d (by simp)⟩

/-- **A match has the shape of its pattern.** -/
theorem shaped_of_run {r : Regex} {prev : Option Char} {s : Str} {p : Part}
    (h : p ∈ r.run word prev s) : r.Shaped p.text := by
  -- a pattern that can be empty may match the empty text
  have hnil : ∀ r : Regex, r.nullable = true → r.Shaped [] := fun r hr =>
    ⟨fun _ => hr, nofun, nofun, fun u c d v he => by simp at he⟩
  induction r generalizing prev s p with
  | empty =>
    obtain rfl := List.mem_singleton.1 h
    exact hnil _ rfl
  | oneOf k =>
    cases s with
    | nil => cases h
    | cons c s =>
      rw [run] at h
      split_ifs at h with hc
      · obtain rfl := List.mem_singleton.1 h
        have hin : ∀ d ∈ [c], inSome [k] d = true := fun d hd => by
          rw [List.mem_singleton.1 hd]
          exact List.any_eq_true.2 ⟨k, List.mem_singleton_self k, hc⟩
        exact ⟨nofun, fun d hd => hin d (List.mem_of_mem_head? hd),
          fun d hd => hin d (List.mem_of_mem_getLast? hd), fun u c d v he => by
            have := congrArg List.length he
            simp at this
            omega⟩
      · cases h
  | many k least most => exact shaped_of_takes h
  | boundary =>
    rw [run] at h
    split_ifs at h
    · obtain rfl := List.mem_singleton.1 h
      exact hnil _ rfl
    · cases h
  | seq a b iha ihb =>
    obtain ⟨p₁, h₁, h⟩ := List.mem_flatMap.1 h
    obtain ⟨p₂, h₂, rfl⟩ := List.mem_map.1 h
    exact (iha h₁).seq (ihb h₂)
  | alt a b iha ihb =>
    rcases List.mem_append.1 h with h | h
    · have hs := iha h
      exact ⟨fun he => by rw [nullable, hs.empty he, Bool.true_or],
        fun c hc => by rw [firsts, inSome_append, hs.first c hc, Bool.true_or],
        fun c hc => by rw [lasts, inSome_append, hs.last c hc, Bool.true_or],
        fun u c d v he => by
          obtain ⟨kk, hkk, hc⟩ := hs.follow u c d v he
          exact ⟨kk, List.mem_append_left _ hkk, hc⟩⟩
    · have hs := ihb h
      exact ⟨fun he => by rw [nullable, hs.empty he, Bool.or_true],
        fun c hc => by rw [firsts, inSome_append, hs.first c hc, Bool.or_true],
        fun c hc => by rw [lasts, inSome_append, hs.last c hc, Bool.or_true],
        fun u c d v he => by
          obtain ⟨kk, hkk, hc⟩ := hs.follow u c d v he
          exact ⟨kk, List.mem_append_right _ hkk, hc⟩⟩
  | group a iha =>
    obtain ⟨q, hq, rfl⟩ := List.mem_map.1 h
    have hs := iha hq
    exact ⟨hs.empty, hs.first, hs.last, hs.follow⟩

/-! ### Matches in a longer text -/

/-- A match with more text after it. -/
def Part.extend (p : Part) (t : Str) : Part := { p with rest := p.rest ++ t }

/-- A match that ends before the last `n` characters. -/
def Part.within (n : ℕ) (p : Part) : Bool := n ≤ p.rest.length

theorem within_extend (p : Part) (t : Str) : (p.extend t).within t.length = true :=
  decide_eq_true (by rw [Part.extend, List.length_append]; omega)

theorem filter_within_extend (p : Part) (t : Str) :
    [p.extend t].filter (Part.within t.length) = [p.extend t] :=
  List.filter_cons_of_pos (within_extend p t)

theorem filter_takes_of_within {k : CharClass} (least : ℕ) (most : Option ℕ) (s t : Str) :
    (takes k least most (s ++ t)).filter (Part.within t.length) =
      (takes k least most s).map (·.extend t) := by
  induction s generalizing least most with
  | nil =>
    cases t with
    | nil =>
      rw [List.append_nil, takes]
      split_ifs <;> rfl
    | cons c t =>
      -- a match that takes the first character after the place goes too far
      have hfar : ∀ p ∈ (if k.holds c ∧ most ≠ some 0 then
          (takes k (least - 1) (most.map (· - 1)) t).map fun p => { p with text := c :: p.text }
          else []), Part.within (c :: t).length p = false := by
        intro p hp
        split_ifs at hp
        · obtain ⟨q, hq, rfl⟩ := List.mem_map.1 hp
          have hlen := congrArg List.length (text_append_rest_of_takes hq)
          rw [List.length_append] at hlen
          refine decide_eq_false ?_
          rw [List.length_cons]
          dsimp only
          omega
        · cases hp
      rw [List.nil_append, takes, takes, List.filter_append, List.filter_eq_nil_iff.2 fun p hp =>
        Bool.eq_false_iff.1 (hfar p hp), List.nil_append]
      split_ifs
      · exact filter_within_extend ⟨[], none, []⟩ (c :: t)
      · rfl
  | cons c s ih =>
    rw [List.cons_append, takes, takes, List.filter_append, List.map_append]
    congr 1
    · split_ifs
      · rw [List.filter_map, List.map_map]
        have hcomp : (Part.within t.length ∘ fun p : Part => { p with text := c :: p.text }) =
            Part.within t.length := rfl
        rw [hcomp, ih, List.map_map]
        rfl
      · rfl
    · split_ifs
      · exact filter_within_extend ⟨[], none, c :: s⟩ t
      · rfl

theorem flatMap_filter_of_nil {α β : Type*} {f : α → List β} {q : α → Bool} {l : List α}
    (h : ∀ a ∈ l, q a = false → f a = []) : l.flatMap f = (l.filter q).flatMap f := by
  induction l with
  | nil => rfl
  | cons a l ih =>
    have ih := ih fun b hb => h b (List.mem_cons_of_mem _ hb)
    cases hq : q a with
    | true => rw [List.filter_cons_of_pos hq, List.flatMap_cons, List.flatMap_cons, ih]
    | false =>
      rw [List.filter_cons_of_neg (Bool.eq_false_iff.1 hq), List.flatMap_cons,
        h a List.mem_cons_self hq, List.nil_append, ih]

/-- **The matches that end before a place are those in the text up to it**, unless a word goes on
there. -/
theorem filter_run_of_within {t : Str} (ht : t.head?.any word = false) (r : Regex)
    (prev : Option Char) (s : Str) :
    (r.run word prev (s ++ t)).filter (Part.within t.length) =
      (r.run word prev s).map (·.extend t) := by
  induction r generalizing prev s with
  | empty => exact filter_within_extend ⟨[], none, s⟩ t
  | oneOf k =>
    cases s with
    | cons c s =>
      rw [List.cons_append, run, run]
      split_ifs
      · exact filter_within_extend ⟨[c], none, s⟩ t
      · rfl
    | nil =>
      cases t with
      | nil => rfl
      | cons c t =>
        rw [List.nil_append, run, run]
        split_ifs
        · exact List.filter_cons_of_neg (by simp [Part.within])
        · rfl
  | many k least most => exact filter_takes_of_within least most s t
  | boundary =>
    have hnext : (s ++ t).head?.any word = s.head?.any word := by
      cases s with
      | nil => exact ht
      | cons c s => rfl
    rw [run, run, hnext]
    split_ifs
    · exact filter_within_extend ⟨[], none, s⟩ t
    · rfl
  | seq a b iha ihb =>
    rw [run, run, List.filter_flatMap, flatMap_filter_of_nil (q := Part.within t.length), iha,
      List.flatMap_map, List.map_flatMap]
    · refine List.flatMap_congr fun p _ => ?_
      rw [List.filter_map, List.map_map]
      exact (congrArg _ (ihb _ p.rest)).trans (List.map_map ..)
    · -- where the first part goes too far, the second one does, too
      intro p _ hp
      rw [List.filter_map, List.map_eq_nil_iff, List.filter_eq_nil_iff]
      intro q hq hwithin
      have hlen := congrArg List.length (text_append_rest hq)
      rw [List.length_append] at hlen
      have hlt := of_decide_eq_false hp
      have hle := of_decide_eq_true hwithin
      dsimp only at hle
      omega
  | alt a b iha ihb =>
    rw [run, run, List.filter_append, List.map_append, iha, ihb]
  | group a iha =>
    rw [run, run, List.filter_map]
    have hcomp : (Part.within t.length ∘ fun p : Part => { p with captured := some p.text }) =
        Part.within t.length := rfl
    rw [hcomp, iha, List.map_map, List.map_map]
    rfl

/-- No match from before the place `t` crosses it. -/
def Stays (word : Char → Bool) (r : Regex) (s t : Str) : Prop :=
  ∀ y z, s = y ++ z → z ≠ [] → ∀ prev, ∀ p ∈ r.run word prev (z ++ t), p.within t.length = true

theorem Stays.tail {r : Regex} {c : Char} {s t : Str} (h : Stays word r (c :: s) t) :
    Stays word r s t :=
  fun y z hs => h (c :: y) z (congrArg (c :: ·) hs)

theorem Stays.run_append {r : Regex} {s t : Str} (h : Stays word r s t) (hs : s ≠ [])
    (ht : t.head?.any word = false) (prev : Option Char) :
    r.run word prev (s ++ t) = (r.run word prev s).map (·.extend t) := by
  rw [← filter_run_of_within ht]
  exact (List.filter_eq_self.2 (h [] s rfl hs prev)).symm

/-- A match crosses a place only where its pattern allows the characters on either side. -/
theorem stays_of_follows {r : Regex} {c d : Char}
    (h : ∀ kk ∈ r.follows, (kk.1.holds c && kk.2.holds d) = false) (s t : Str) :
    Stays word r (s ++ [c]) (d :: t) := by
  intro y z hz hne prev p hp
  obtain ⟨z, rfl⟩ : ∃ z', z = z' ++ [c] := by
    cases z using List.reverseRecOn with
    | nil => exact absurd rfl hne
    | append_singleton z' c' _ =>
      rw [← List.append_assoc] at hz
      exact ⟨z', by rw [(List.append_inj' hz rfl).2]⟩
  have htext := text_append_rest hp
  by_contra hlt
  rw [Part.within, decide_eq_true_eq, not_le, List.length_cons] at hlt
  rw [List.append_assoc] at htext
  -- the text is longer than what is before the place
  obtain ⟨v, hv⟩ : ∃ v, p.text = z ++ c :: d :: v := by
    have hlen := congrArg List.length htext
    simp only [List.length_append, List.length_cons, List.length_nil] at hlen
    refine ⟨p.text.drop (z.length + 2), ?_⟩
    have htake : p.text.take (z.length + 2) = z ++ [c, d] := by
      have := congrArg (List.take (z.length + 2)) htext
      rw [List.take_append_of_le_length (by omega), List.take_length_add_append] at this
      exact this
    calc p.text = p.text.take (z.length + 2) ++ p.text.drop (z.length + 2) :=
          (List.take_append_drop ..).symm
      _ = z ++ c :: d :: p.text.drop (z.length + 2) := by
          rw [htake, List.append_assoc]
          rfl
  obtain ⟨kk, hkk, hc, hd⟩ := (shaped_of_run hp).follow z c d v hv
  have := h kk hkk
  rw [hc, hd] at this
  cases this

/-- A match does not cross into a text none of whose characters it can end with. -/
theorem stays_of_lasts {r : Regex} {t : Str} (h : ∀ c ∈ t, inSome r.lasts c = false) (s : Str) :
    Stays word r s t := by
  intro y z _ _ prev p hp
  have htext := text_append_rest hp
  by_contra hlt
  rw [Part.within, decide_eq_true_eq, not_le] at hlt
  rcases List.append_eq_append_iff.1 htext with ⟨w, hw, hrest⟩ | ⟨w, hw, hrest⟩
  · rw [hrest, List.length_append] at hlt
    omega
  · cases w using List.reverseRecOn with
    | nil =>
      rw [List.nil_append] at hrest
      rw [hrest] at hlt
      exact absurd hlt (lt_irrefl _)
    | append_singleton w c _ =>
      have hc : p.text.getLast? = some c := by
        rw [hw, ← List.append_assoc, List.getLast?_concat]
      have hlast := (shaped_of_run hp).last c hc
      rw [h c (by rw [hrest]; simp)] at hlast
      cases hlast

theorem run_nil {r : Regex} (h : r.nullable = false) (prev : Option Char) :
    r.run word prev [] = [] := by
  rw [List.eq_nil_iff_forall_not_mem]
  intro p hp
  have hnil := (List.append_eq_nil_iff.1 (text_append_rest hp)).1
  rw [(shaped_of_run hp).empty hnil] at h
  cases h

theorem findIter_nil {r : Regex} (h : r.nullable = false) (before : Str) (skip : ℕ) :
    findIter word r before skip [] = [] := by
  rw [findIter, run_nil h]
  split_ifs <;> rfl

theorem mem_findIter {r : Regex} (hn : r.nullable = false) {before : Str} {skip : ℕ} {s : Str}
    {m : Match} (h : m ∈ findIter word r before skip s) :
    m.before ++ (m.text ++ m.after) = before ++ s ∧ m.text ≠ [] := by
  induction s generalizing before skip with
  | nil =>
    rw [findIter_nil hn] at h
    cases h
  | cons c s ih =>
    have hnext : ∀ {skip}, m ∈ findIter word r (before ++ [c]) skip s →
        m.before ++ (m.text ++ m.after) = before ++ c :: s ∧ m.text ≠ [] := fun h => by
      have hm := ih h
      rwa [List.append_assoc] at hm
    cases skip with
    | succ skip =>
      rw [findIter] at h
      exact hnext h
    | zero =>
      rw [findIter] at h
      cases hrun : r.run word before.getLast? (c :: s) with
      | nil =>
        rw [hrun] at h
        exact hnext h
      | cons p ps =>
        rw [hrun] at h
        rcases List.mem_cons.1 h with rfl | h
        · have hp : p ∈ r.run word before.getLast? (c :: s) := hrun ▸ List.mem_cons_self
          refine ⟨congrArg (before ++ ·) (text_append_rest hp), fun htext => ?_⟩
          rw [(shaped_of_run hp).empty htext] at hn
          cases hn
        · exact hnext h

/-- **Matches that do not cross a place are those on either side of it.** -/
theorem findIter_append {r : Regex} (hn : r.nullable = false) {s t : Str}
    (h : Stays word r s t) (ht : t.head?.any word = false) (before : Str) {skip : ℕ}
    (hskip : skip ≤ s.length) :
    (findIter word r before skip (s ++ t)).map Match.what =
      (findIter word r before skip s).map Match.what ++
        (findIter word r (before ++ s) 0 t).map Match.what := by
  induction s generalizing before skip with
  | nil =>
    obtain rfl := Nat.le_zero.1 hskip
    rw [findIter_nil hn, List.append_nil]
    rfl
  | cons c s ih =>
    have hassoc : before ++ c :: s = before ++ [c] ++ s := by rw [List.append_assoc]; rfl
    cases skip with
    | succ skip =>
      rw [List.cons_append, findIter, findIter, hassoc]
      exact ih h.tail _ (Nat.le_of_succ_le_succ hskip)
    | zero =>
      have hrun := h.run_append (List.cons_ne_nil c s) ht before.getLast?
      rw [List.cons_append] at hrun ⊢
      rw [findIter, findIter, hrun, hassoc]
      cases hp : r.run word before.getLast? (c :: s) with
      | nil => exact ih h.tail _ (Nat.zero_le _)
      | cons p ps =>
        have hlen := congrArg List.length
          (text_append_rest (p := p) (hp ▸ List.mem_cons_self))
        rw [List.length_append, List.length_cons] at hlen
        exact congrArg ((p.text, p.captured) :: ·) (ih h.tail _ (by
          change p.text.length - 1 ≤ s.length
          omega))

theorem run_congr {prev prev' : Option Char} (h : prev.any word = prev'.any word) (r : Regex)
    (s : Str) : r.run word prev s = r.run word prev' s := by
  induction r generalizing prev prev' s with
  | empty => rfl
  | oneOf k => cases s <;> rfl
  | many k least most => rfl
  | boundary => rw [run, run, h]
  | seq a b iha ihb =>
    rw [run, run, iha h]
    refine List.flatMap_congr fun p _ => ?_
    rw [ihb]
    cases p.text.getLast? with
    | none => exact h
    | some c => rfl
  | alt a b iha ihb => rw [run, run, iha h, ihb h]
  | group a iha => rw [run, run, iha h]

/-- Of the text before, only its last character matters, and only whether it is in a word. -/
theorem findIter_congr {before before' : Str}
    (h : before.getLast?.any word = before'.getLast?.any word) (r : Regex) (skip : ℕ) (s : Str) :
    (findIter word r before skip s).map Match.what =
      (findIter word r before' skip s).map Match.what := by
  induction s generalizing before before' skip with
  | nil =>
    rw [findIter, findIter, run_congr h]
    split_ifs
    · cases (r.run word before'.getLast? []).head? <;> rfl
    · rfl
  | cons c s ih =>
    have hnext : (before ++ [c]).getLast?.any word = (before' ++ [c]).getLast?.any word := by
      rw [List.getLast?_concat, List.getLast?_concat]
    cases skip with
    | succ skip =>
      rw [findIter, findIter]
      exact ih hnext skip
    | zero =>
      rw [findIter, findIter, run_congr h]
      cases r.run word before'.getLast? (c :: s) with
      | nil => exact ih hnext 0
      | cons p ps => exact congrArg ((p.text, p.captured) :: ·) (ih hnext _)

theorem findIter_append_of_firsts {r : Regex} (hn : r.nullable = false) {w : Str}
    (hw : ∀ c ∈ w, inSome r.firsts c = false) (before s : Str) :
    findIter word r before 0 (w ++ s) = findIter word r (before ++ w) 0 s := by
  induction w generalizing before with
  | nil => rw [List.append_nil]; rfl
  | cons c w ih =>
    have hrun : r.run word before.getLast? (c :: (w ++ s)) = [] := by
      rw [List.eq_nil_iff_forall_not_mem]
      intro p hp
      have hshape := shaped_of_run hp
      cases htext : p.text with
      | nil =>
        rw [hshape.empty htext] at hn
        cases hn
      | cons d u =>
        have hd := text_append_rest hp
        rw [htext] at hd
        obtain rfl : d = c := (List.cons.inj hd).1
        have hfirst := hshape.first d (by rw [htext]; rfl)
        rw [hw d List.mem_cons_self] at hfirst
        cases hfirst
    rw [List.cons_append, findIter, hrun]
    refine (ih (fun d hd => hw d (List.mem_cons_of_mem _ hd)) (before ++ [c])).trans ?_
    rw [List.append_assoc]
    rfl

end Regex
