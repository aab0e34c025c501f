import Mathlib.Data.Char
import Mathlib.Data.List.DropRight
import Mathlib.Data.List.Infix
import Mathlib.Data.List.Lex
import Mathlib.Tactic.Linarith
import Mathlib.Tactic.Push
import Mathlib.Tactic.SplitIfs

/-!
# Rust string slices

The standard-library string operations, on the list of Unicode scalar values of a string.  A
slice that the Rust code takes by byte offsets is here the list of the characters between
them, so every slice is on character boundaries by construction.

* `trim`, `trimStart`, `trimEnd` : by the Unicode `White_Space` property.
* `splitInclusive`, `lines` : the two ways of cutting a text into lines.
* `splitOnce`, `split`, `splitn`, `join` : cutting at, and gluing with, a separator.
* `debug` : the `{:?}` rendering of a string.  Which characters outside ASCII it escapes
  depends on the Unicode tables of the compiler, so these are a parameter (`CharTables`).
-/

namespace Rust

/-- A string as its list of Unicode scalar values. -/
abbrev Str := List Char

instance : LawfulBEq Str := inferInstance

/-! ### Whitespace -/

/-- The Unicode `White_Space` property (`char::is_whitespace`). -/
def isWhitespace (c : Char) : Bool :=
  let n := c.toNat
  (9 ≤ n && n ≤ 13) || n == 0x20 || n == 0x85 || n == 0xA0 || n == 0x1680 ||
    (0x2000 ≤ n && n ≤ 0x200A) || n == 0x2028 || n == 0x2029 || n == 0x202F || n == 0x205F ||
    n == 0x3000

theorem isAlphanum_of_isWhitespace {c : Char} (h : isWhitespace c = true) :
    c.isAlphanum = false := by
  rw [Bool.eq_false_iff]
  intro hc
  simp only [isWhitespace, Bool.or_eq_true, Bool.and_eq_true, decide_eq_true_eq, beq_iff_eq] at h
  change (decide (c.val ≥ 'A'.val ∧ c.val ≤ 'Z'.val) || (c.val ≥ 'a'.val && c.val ≤ 'z'.val) ||
    (c.val ≥ '0'.val && c.val ≤ '9'.val)) = true at hc
  simp only [Bool.or_eq_true, Bool.and_eq_true, decide_eq_true_eq, UInt32.le_iff_toNat_le,
    ge_iff_le] at hc
  change (65 ≤ c.toNat ∧ c.toNat ≤ 90 ∨ 97 ≤ c.toNat ∧ c.toNat ≤ 122) ∨
    48 ≤ c.toNat ∧ c.toNat ≤ 57 at hc
  omega

/-- `str::trim_start`. -/
def trimStart (s : Str) : Str := s.dropWhile isWhitespace

/-- `str::trim_end`. -/
def trimEnd (s : Str) : Str := s.rdropWhile isWhitespace

/-- `str::trim`. -/
def trim (s : Str) : Str := trimEnd (trimStart s)

/-- `s` neither starts nor ends with a whitespace character. -/
def Trimmed (s : Str) : Prop :=
  (∀ c ∈ s.head?, isWhitespace c = false) ∧ ∀ c ∈ s.getLast?, isWhitespace c = false

theorem trimStart_eq_self {s : Str} (h : ∀ c ∈ s.head?, isWhitespace c = false) :
    trimStart s = s := by
  cases s with
  | nil => rfl
  | cons c s => simp [trimStart, h c (by simp)]

theorem trimEnd_eq_self {s : Str} (h : ∀ c ∈ s.getLast?, isWhitespace c = false) :
    trimEnd s = s := by
  rw [trimEnd, List.rdropWhile_eq_self_iff]
  intro hs
  simp [h _ (List.getLast?_eq_getLast_of_ne_nil hs)]

theorem trim_eq_self {s : Str} (h : Trimmed s) : trim s = s := by
  rw [trim, trimStart_eq_self h.1, trimEnd_eq_self h.2]

theorem trimStart_append_of_all {w s : Str} (hw : ∀ c ∈ w, isWhitespace c = true) :
    trimStart (w ++ s) = trimStart s := by
  rw [trimStart, List.dropWhile_append_of_pos hw, trimStart]

theorem trimEnd_append_of_all {w s : Str} (hw : ∀ c ∈ w, isWhitespace c = true) :
    trimEnd (s ++ w) = trimEnd s := by
  induction w using List.reverseRecOn with
  | nil => simp
  | append_singleton w c ih =>
    rw [← List.append_assoc, trimEnd, List.rdropWhile_concat_pos _ _ _ (hw c (by simp))]
    exact ih fun d hd => hw d (by simp [hd])

theorem trimEnd_append {s t : Str} (h : trimEnd t ≠ []) : trimEnd (s ++ t) = s ++ trimEnd t := by
  induction t using List.reverseRecOn with
  | nil => simp [trimEnd] at h
  | append_singleton t c ih =>
    by_cases hc : isWhitespace c = true
    · rw [trimEnd, List.rdropWhile_concat_pos _ _ _ hc] at h
      rw [← List.append_assoc, trimEnd, List.rdropWhile_concat_pos _ _ _ hc, trimEnd,
        List.rdropWhile_concat_pos _ _ _ hc]
      exact ih h
    · rw [← List.append_assoc, trimEnd, List.rdropWhile_concat_neg _ _ _ hc, trimEnd,
        List.rdropWhile_concat_neg _ _ _ hc, List.append_assoc]

theorem exists_rdropWhile_cons {p : Char → Bool} {c : Char} (h : p c = false) (l : Str) :
    ∃ r, (c :: l).rdropWhile p = c :: r := by
  obtain ⟨t, ht⟩ := List.rdropWhile_prefix p (l := c :: l)
  cases hr : (c :: l).rdropWhile p with
  | nil =>
    rw [List.rdropWhile_eq_nil_iff] at hr
    rw [hr c List.mem_cons_self] at h
    cases h
  | cons d r =>
    rw [hr, List.cons_append] at ht
    exact ⟨r, by rw [(List.cons.inj ht).1]⟩

theorem trimEnd_eq_nil_iff {s : Str} : trimEnd s = [] ↔ ∀ c ∈ s, isWhitespace c = true := by
  rw [trimEnd, List.rdropWhile_eq_nil_iff]

theorem trimStart_eq_nil_iff {s : Str} : trimStart s = [] ↔ ∀ c ∈ s, isWhitespace c = true := by
  rw [trimStart, List.dropWhile_eq_nil_iff]

theorem trim_eq_nil_iff {s : Str} : trim s = [] ↔ ∀ c ∈ s, isWhitespace c = true := by
  rw [trim, trimEnd_eq_nil_iff]
  constructor
  · intro h c hc
    rw [← List.takeWhile_append_dropWhile (p := isWhitespace) (l := s), List.mem_append] at hc
    rcases hc with hc | hc
    · exact List.mem_takeWhile_imp hc
    · exact h c hc
  · exact fun h c hc => h c (List.dropWhile_sublist _ |>.subset hc)

theorem trim_trimEnd (s : Str) : trim (trimEnd s) = trim s := by
  by_cases hs : ∀ c ∈ s, isWhitespace c = true
  · rw [trimEnd_eq_nil_iff.2 hs, trim_eq_nil_iff.2 hs]; rfl
  · have key : ∀ s : Str, trimStart s ≠ [] → trimStart (trimEnd s) = trimEnd (trimStart s) := by
      intro s hs
      have hsplit := List.takeWhile_append_dropWhile (p := isWhitespace) (l := s)
      have hne : trimEnd (trimStart s) ≠ [] := by
        intro h
        refine hs (trimStart_eq_nil_iff.2 fun c hc => ?_)
        exact trim_eq_nil_iff.1 h c hc
      conv_lhs => rw [← hsplit]
      change trimStart (trimEnd (s.takeWhile isWhitespace ++ trimStart s)) = _
      rw [trimEnd_append hne,
        trimStart_append_of_all fun c hc => List.mem_takeWhile_imp hc]
      refine trimStart_eq_self fun c hc => ?_
      -- the head of what is left after `trimStart` is not whitespace
      obtain ⟨t, ht⟩ : trimEnd (trimStart s) <+: trimStart s := List.rdropWhile_prefix _ _
      have hhead : (trimStart s).head? = some c := by
        rw [← ht]
        cases hx : trimEnd (trimStart s) with
        | nil => exact absurd hx hne
        | cons d l => rw [hx] at hc; simpa using hc
      have := List.head?_dropWhile_not isWhitespace s
      rw [trimStart] at hhead
      rw [hhead] at this
      simpa using this
    have h1 : trimStart s ≠ [] := fun h => hs (trimStart_eq_nil_iff.1 h)
    rw [trim, key s h1, trim, trimEnd, trimEnd, List.rdropWhile_idempotent]

@[simp] theorem trim_trim (s : Str) : trim (trim s) = trim s := by
  change trim (trimEnd (trimStart s)) = trim s
  rw [trim_trimEnd, trim, trim, trimStart, trimStart, List.dropWhile_idempotent]

theorem trim_cons_of_ws {c : Char} {s : Str} (hc : isWhitespace c = true) :
    trim (c :: s) = trim s := by
  rw [trim, trimStart, List.dropWhile_cons_of_pos hc]; rfl

theorem trim_isInfix (s : Str) : trim s <:+: s :=
  (List.rdropWhile_prefix _ _).isInfix.trans (List.dropWhile_suffix _).isInfix

theorem exists_eq_append_trim (s : Str) : ∃ w w', s = w ++ (trim s ++ w') ∧
    (∀ c ∈ w, isWhitespace c = true) ∧ ∀ c ∈ w', isWhitespace c = true := by
  refine ⟨s.takeWhile isWhitespace, (trimStart s).rtakeWhile isWhitespace, ?_,
    fun c hc => List.mem_takeWhile_imp hc, fun c hc => List.mem_rtakeWhile_imp hc⟩
  rw [trim, trimEnd, List.rdropWhile_append_rtakeWhile, trimStart,
    List.takeWhile_append_dropWhile]

theorem mem_trim_or_isWhitespace {c : Char} {s : Str} (h : c ∈ s) :
    c ∈ trim s ∨ isWhitespace c = true := by
  have hend : ∀ s : Str, c ∈ s → c ∈ trimEnd s ∨ isWhitespace c = true := by
    intro s h
    induction s using List.reverseRecOn with
    | nil => simp at h
    | append_singleton s d ih =>
      by_cases hd : isWhitespace d = true
      · rw [trimEnd, List.rdropWhile_concat_pos _ _ _ hd]
        rcases List.mem_append.1 h with h | h
        · exact ih h
        · exact .inr (List.mem_singleton.1 h ▸ hd)
      · rw [trimEnd, List.rdropWhile_concat_neg _ _ _ hd]
        exact .inl h
  rw [← List.takeWhile_append_dropWhile (p := isWhitespace) (l := s), List.mem_append] at h
  rcases h with h | h
  · exact .inr (List.mem_takeWhile_imp h)
  · exact hend _ h

theorem rdropWhile_append_cons {p : Char → Bool} {c : Char} (hc : p c = false) (s t : Str) :
    (s ++ c :: t).rdropWhile p = s ++ c :: t.rdropWhile p := by
  induction t using List.reverseRecOn with
  | nil => rw [List.rdropWhile_concat_neg _ _ _ (by simp [hc])]; rfl
  | append_singleton t d ih =>
    have hassoc : s ++ c :: (t ++ [d]) = (s ++ c :: t) ++ [d] := by simp
    by_cases hd : p d = true
    · rw [hassoc, List.rdropWhile_concat_pos _ _ _ hd, ih, List.rdropWhile_concat_pos _ _ _ hd]
    · rw [hassoc, List.rdropWhile_concat_neg _ _ _ hd, List.rdropWhile_concat_neg _ _ _ hd,
        hassoc]

theorem trimEnd_append_cons {c : Char} (hc : isWhitespace c = false) (s t : Str) :
    trimEnd (s ++ c :: t) = s ++ c :: trimEnd t :=
  rdropWhile_append_cons hc s t

/-- Dropping some whitespace characters from the end first does not change `trimEnd`. -/
theorem trimEnd_rdropWhile {p : Char → Bool} (hp : ∀ c, p c = true → isWhitespace c = true)
    (s : Str) : trimEnd (s.rdropWhile p) = trimEnd s := by
  induction s using List.reverseRecOn with
  | nil => rfl
  | append_singleton s c ih =>
    by_cases hc : p c = true
    · rw [List.rdropWhile_concat_pos _ _ _ hc, ih, trimEnd, trimEnd,
        List.rdropWhile_concat_pos _ _ _ (hp c hc)]
    · rw [List.rdropWhile_concat_neg _ _ _ hc]

/-! ### Prefixes and suffixes -/

/-- `str::strip_prefix`. -/
def stripPrefix (s p : Str) : Option Str := s.dropPrefix? p

/-- `str::strip_suffix`. -/
def stripSuffix (s p : Str) : Option Str := s.dropSuffix? p

theorem stripPrefix_eq_some_iff {s p r : Str} : stripPrefix s p = some r ↔ s = p ++ r := by
  rw [stripPrefix, List.dropPrefix?_eq_some_iff]
  constructor
  · rintro ⟨p', rfl, hp⟩; rw [eq_of_beq hp]
  · rintro rfl; exact ⟨p, rfl, beq_self_eq_true p⟩

theorem isSome_stripPrefix_iff {s p : Str} : (stripPrefix s p).isSome = true ↔ p <+: s := by
  rw [Option.isSome_iff_exists]
  constructor
  · rintro ⟨r, h⟩
    exact ⟨r, (stripPrefix_eq_some_iff.1 h).symm⟩
  · rintro ⟨r, h⟩
    exact ⟨r, stripPrefix_eq_some_iff.2 h.symm⟩

theorem stripSuffix_eq_some_iff {s p r : Str} : stripSuffix s p = some r ↔ s = r ++ p := by
  rw [stripSuffix, List.dropSuffix?_eq_some_iff]
  constructor
  · rintro ⟨p', rfl, hp⟩; rw [eq_of_beq hp]
  · rintro rfl; exact ⟨p, rfl, beq_self_eq_true p⟩

@[simp] theorem stripPrefix_append (p r : Str) : stripPrefix (p ++ r) p = some r :=
  stripPrefix_eq_some_iff.2 rfl

@[simp] theorem stripSuffix_append (p r : Str) : stripSuffix (r ++ p) p = some r :=
  stripSuffix_eq_some_iff.2 rfl

theorem stripPrefix_cons (c d : Char) (s p : Str) :
    stripPrefix (c :: s) (d :: p) = if c = d then stripPrefix s p else none := by
  cases h : stripPrefix (c :: s) (d :: p) with
  | none =>
    split_ifs with hc
    · cases h' : stripPrefix s p with
      | none => rfl
      | some r =>
        rw [stripPrefix_eq_some_iff] at h'
        rw [h', hc, ← List.cons_append, stripPrefix_append] at h
        cases h
    · rfl
  | some r =>
    rw [stripPrefix_eq_some_iff] at h
    obtain ⟨rfl, rfl⟩ := List.cons.inj h
    rw [if_pos rfl]
    exact (stripPrefix_append p r).symm

@[simp] theorem stripPrefix_nil_cons (d : Char) (p : Str) : stripPrefix [] (d :: p) = none := by
  cases h : stripPrefix [] (d :: p) with
  | none => rfl
  | some r =>
    rw [stripPrefix_eq_some_iff] at h
    cases h

@[simp] theorem stripPrefix_nil (s : Str) : stripPrefix s [] = some s :=
  stripPrefix_eq_some_iff.2 rfl

/-! ### Lines -/

/-- `str::split_inclusive('\n')`: the lines of the text, each with its line feed. -/
def splitInclusive : Str → List Str
  | [] => []
  | c :: s =>
    if c = '\n' then [c] :: splitInclusive s
    else match splitInclusive s with
      | [] => [[c]]
      | l :: ls => (c :: l) :: ls

/-- A line without its `\n` or `\r\n`.  A carriage return that ends the text stays. -/
def stripLineEnding (l : Str) : Str :=
  match stripSuffix l ['\n'] with
  | none => l
  | some l => (stripSuffix l ['\r']).getD l

/-- `str::lines`. -/
def lines (s : Str) : List Str := (splitInclusive s).map stripLineEnding

@[simp] theorem flatten_splitInclusive (s : Str) : (splitInclusive s).flatten = s := by
  induction s with
  | nil => rfl
  | cons c s ih =>
    rw [splitInclusive]
    split_ifs with hc
    · simp [ih]
    · cases h : splitInclusive s with
      | nil => rw [h] at ih; simpa using ih
      | cons l ls => rw [h] at ih; simpa using ih

theorem splitInclusive_line {l : Str} (h : '\n' ∉ l) (s : Str) :
    splitInclusive (l ++ '\n' :: s) = (l ++ ['\n']) :: splitInclusive s := by
  induction l with
  | nil => simp [splitInclusive]
  | cons c l ih =>
    simp only [List.mem_cons, not_or] at h
    rw [List.cons_append, splitInclusive, if_neg (Ne.symm h.1), ih h.2]
    rfl

theorem splitInclusive_of_notMem {l : Str} (h : '\n' ∉ l) (hl : l ≠ []) :
    splitInclusive l = [l] := by
  induction l with
  | nil => exact absurd rfl hl
  | cons c l ih =>
    simp only [List.mem_cons, not_or] at h
    rw [splitInclusive, if_neg (Ne.symm h.1)]
    cases l with
    | nil => rfl
    | cons d l => rw [ih h.2 (by simp)]

theorem splitInclusive_append_lf (a b : Str) :
    splitInclusive (a ++ '\n' :: b) = splitInclusive (a ++ ['\n']) ++ splitInclusive b := by
  induction a with
  | nil => rfl
  | cons c a ih =>
    rw [List.cons_append, List.cons_append, splitInclusive, splitInclusive, ih]
    split_ifs
    · rfl
    · cases h : splitInclusive (a ++ ['\n']) with
      | nil =>
        have hflat := flatten_splitInclusive (a ++ ['\n'])
        rw [h] at hflat
        simp at hflat
      | cons l ls => rfl

theorem splitInclusive_lf (s : Str) : splitInclusive (s ++ ['\n']) = splitInclusive s ++ [['\n']] ∨
    ∃ ls l, splitInclusive s = ls ++ [l] ∧ splitInclusive (s ++ ['\n']) = ls ++ [l ++ ['\n']] := by
  induction s with
  | nil => exact .inl rfl
  | cons c s ih =>
    rw [List.cons_append, splitInclusive, splitInclusive]
    split_ifs with hc
    · rcases ih with heq | ⟨ls, l, hs, heq⟩
      · exact .inl (by rw [heq, List.cons_append])
      · exact .inr ⟨[c] :: ls, l, by rw [hs, List.cons_append], by rw [heq, List.cons_append]⟩
    · rcases ih with heq | ⟨ls, l, hs, heq⟩
      · rw [heq]
        cases splitInclusive s with
        | nil => exact .inr ⟨[], [c], rfl, rfl⟩
        | cons l ls => exact .inl rfl
      · rw [hs, heq]
        cases ls with
        | nil => exact .inr ⟨[], c :: l, rfl, rfl⟩
        | cons l' ls => exact .inr ⟨(c :: l') :: ls, l, rfl, rfl⟩

theorem splitInclusive_lines {ls : List Str} (h : ∀ l ∈ ls, '\n' ∉ l) (s : Str) :
    splitInclusive (ls.flatMap (· ++ ['\n']) ++ s) = ls.map (· ++ ['\n']) ++ splitInclusive s := by
  induction ls with
  | nil => rfl
  | cons l ls ih =>
    simp only [List.flatMap_cons, List.append_assoc, List.map_cons, List.cons_append,
      List.nil_append]
    rw [splitInclusive_line (h l (by simp)), ih fun l hl => h l (List.mem_cons_of_mem _ hl)]

theorem stripLineEnding_lf (l : Str) :
    stripLineEnding (l ++ ['\n']) = (stripSuffix l ['\r']).getD l := by
  rw [stripLineEnding, stripSuffix_append]

theorem stripLineEnding_lf_of_notMem {l : Str} (h : '\r' ∉ l) :
    stripLineEnding (l ++ ['\n']) = l := by
  rw [stripLineEnding_lf]
  cases hx : stripSuffix l ['\r'] with
  | none => rfl
  | some r =>
    rw [stripSuffix_eq_some_iff] at hx
    exact absurd (hx ▸ List.mem_append_right r List.mem_cons_self) h

theorem lines_flatMap {ls : List Str} (h : ∀ l ∈ ls, '\n' ∉ l ∧ '\r' ∉ l) :
    lines (ls.flatMap (· ++ ['\n'])) = ls := by
  have hsplit := splitInclusive_lines (fun l hl => (h l hl).1) []
  rw [List.append_nil, splitInclusive, List.append_nil] at hsplit
  rw [lines, hsplit, List.map_map]
  refine (List.map_congr_left fun l hl => ?_).trans (List.map_id ls)
  exact stripLineEnding_lf_of_notMem (h l hl).2

theorem lines_append_lf (a b : Str) : lines (a ++ '\n' :: b) = lines (a ++ ['\n']) ++ lines b := by
  rw [lines, splitInclusive_append_lf, List.map_append, ← lines, ← lines]

theorem trim_append_of_all {w s : Str} (hw : ∀ c ∈ w, isWhitespace c = true) :
    trim (s ++ w) = trim s := by
  rw [← trim_trimEnd, trimEnd_append_of_all hw, trim_trimEnd]

theorem trim_concat {c : Char} {s : Str} (hc : isWhitespace c = true) : trim (s ++ [c]) = trim s :=
  trim_append_of_all (List.forall_mem_singleton.2 hc)

theorem map_trim_lines (s : Str) : (lines s).map trim = (splitInclusive s).map trim := by
  rw [lines, List.map_map]
  refine List.map_congr_left fun l _ => ?_
  rw [Function.comp_apply, stripLineEnding]
  cases hl : stripSuffix l ['\n'] with
  | none => rfl
  | some m =>
    rw [stripSuffix_eq_some_iff.1 hl]
    dsimp only
    rw [trim_concat (by decide)]
    cases hm : stripSuffix m ['\r'] with
    | none => rfl
    | some k =>
      rw [stripSuffix_eq_some_iff.1 hm, Option.getD_some, trim_concat (by decide)]

/-- Lines that were written come back, but for whitespace around them. -/
theorem map_trim_lines_flatMap {ls : List Str} (h : ∀ l ∈ ls, '\n' ∉ l) :
    (lines (ls.flatMap (· ++ ['\n']))).map trim = ls.map trim := by
  have hsplit := splitInclusive_lines h []
  rw [List.append_nil, splitInclusive, List.append_nil] at hsplit
  rw [map_trim_lines, hsplit, List.map_map]
  exact List.map_congr_left fun l _ => trim_concat (by decide)

theorem stripLineEnding_of_notMem {l : Str} (h : '\n' ∉ l) : stripLineEnding l = l := by
  rw [stripLineEnding]
  cases hx : stripSuffix l ['\n'] with
  | none => rfl
  | some r => rw [stripSuffix_eq_some_iff] at hx; simp [hx] at h

/-- A line of `splitInclusive` holds at most one line feed, its last character. -/
theorem of_mem_splitInclusive {s l : Str} (h : l ∈ splitInclusive s) :
    '\n' ∉ l ∨ ∃ m, '\n' ∉ m ∧ l = m ++ ['\n'] := by
  induction s generalizing l with
  | nil => simp [splitInclusive] at h
  | cons c s ih =>
    rw [splitInclusive] at h
    split_ifs at h with hc
    · rcases List.mem_cons.1 h with rfl | h
      · exact .inr ⟨[], by simp, by simp [hc]⟩
      · exact ih h
    · have hcons : ∀ l, ('\n' ∉ l ∨ ∃ m, '\n' ∉ m ∧ l = m ++ ['\n']) →
          '\n' ∉ c :: l ∨ ∃ m, '\n' ∉ m ∧ c :: l = m ++ ['\n'] := by
        rintro l (hn | ⟨m, hn, rfl⟩)
        · exact .inl (by simp [hn, Ne.symm hc])
        · exact .inr ⟨c :: m, by simp [hn, Ne.symm hc], rfl⟩
      cases hs : splitInclusive s with
      | nil =>
        rw [hs] at h
        obtain rfl := List.mem_singleton.1 h
        exact hcons [] (.inl (by simp))
      | cons l' ls =>
        rw [hs] at h ih
        rcases List.mem_cons.1 h with rfl | h
        · exact hcons l' (ih (by simp))
        · exact ih (List.mem_cons_of_mem _ h)

theorem notMem_of_mem_lines {s l : Str} (h : l ∈ lines s) : '\n' ∉ l := by
  obtain ⟨m, hm, rfl⟩ := List.mem_map.1 h
  rcases of_mem_splitInclusive hm with hn | ⟨m, hn, rfl⟩
  · rwa [stripLineEnding_of_notMem hn]
  · rw [stripLineEnding_lf]
    cases hx : stripSuffix m ['\r'] with
    | none => exact hn
    | some r =>
      rw [stripSuffix_eq_some_iff] at hx
      rw [hx, List.mem_append, not_or] at hn
      exact hn.1

theorem stripLineEnding_isPrefix (l : Str) : stripLineEnding l <+: l := by
  rw [stripLineEnding]
  cases hl : stripSuffix l ['\n'] with
  | none => exact List.prefix_rfl
  | some m =>
    rw [stripSuffix_eq_some_iff] at hl
    dsimp only
    rw [hl]
    cases hm : stripSuffix m ['\r'] with
    | none => exact List.prefix_append _ _
    | some r =>
      rw [stripSuffix_eq_some_iff] at hm
      rw [Option.getD_some, hm]
      exact (List.prefix_append _ _).trans (List.prefix_append _ _)

theorem infix_of_mem_lines {s l : Str} (h : l ∈ lines s) : l <:+: s := by
  obtain ⟨m, hm, rfl⟩ := List.mem_map.1 h
  have hin := List.infix_of_mem_flatten hm
  rw [flatten_splitInclusive] at hin
  exact (stripLineEnding_isPrefix m).isInfix.trans hin

/-! ### Cutting and gluing -/

/-- `str::split_once` at a character. -/
def splitOnce (c : Char) (s : Str) : Option (Str × Str) :=
  match s.dropWhile (· ≠ c) with
  | [] => none
  | _ :: r => some (s.takeWhile (· ≠ c), r)

/-- `str::split` at a character. -/
def split (c : Char) (s : Str) : List Str := s.splitOn c

/-- `str::split_whitespace`: the pieces between whitespace, empty ones left out. -/
def splitWhitespace (s : Str) : List Str := (s.splitOnP isWhitespace).filter (· ≠ [])

/-- `str::splitn`: at most `n` pieces, the last of which is the uncut rest. -/
def splitn (c : Char) : ℕ → Str → List Str
  | 0, _ => []
  | 1, s => [s]
  | n + 2, s => match splitOnce c s with
    | none => [s]
    | some (p, r) => p :: splitn c (n + 1) r

/-- `[_]::join`. -/
def join (sep : Str) (ps : List Str) : Str := sep.intercalate ps

theorem splitOnce_append {c : Char} {p : Str} (h : c ∉ p) (r : Str) :
    splitOnce c (p ++ c :: r) = some (p, r) := by
  have hp : ∀ d ∈ p, decide (d ≠ c) = true := fun d hd => by
    rw [decide_eq_true_eq]; rintro rfl; exact h hd
  rw [splitOnce, List.dropWhile_append_of_pos hp, List.takeWhile_append_of_pos hp]
  simp

theorem splitOnce_eq_some {c : Char} {s p r : Str} (h : splitOnce c s = some (p, r)) :
    s = p ++ c :: r ∧ c ∉ p := by
  have hs := List.takeWhile_append_dropWhile (p := (· ≠ c)) (l := s)
  have hhead := List.head?_dropWhile_not (p := (· ≠ c)) (l := s)
  rw [splitOnce] at h
  cases hd : s.dropWhile (· ≠ c) with
  | nil => rw [hd] at h; cases h
  | cons d l =>
    rw [hd] at h hs hhead
    simp only [Option.some.injEq, Prod.mk.injEq] at h
    obtain ⟨rfl, rfl⟩ := h
    have hdc : d = c := by simpa using hhead
    subst hdc
    refine ⟨hs.symm, fun hmem => ?_⟩
    simpa using List.mem_takeWhile_imp hmem

theorem join_cons (sep p : Str) {ps : List Str} (h : ps ≠ []) :
    join sep (p :: ps) = p ++ (sep ++ join sep ps) := by
  cases ps with
  | nil => exact absurd rfl h
  | cons q ps => rw [join, List.intercalate_cons_cons, join, List.append_assoc]

theorem notMem_join {c : Char} {sep : Str} (hsep : c ∉ sep) {ps : List Str}
    (h : ∀ p ∈ ps, c ∉ p) : c ∉ join sep ps := by
  induction ps with
  | nil => exact List.not_mem_nil
  | cons p ps ih =>
    have hp := h p List.mem_cons_self
    have ih := ih fun q hq => h q (List.mem_cons_of_mem _ hq)
    cases ps with
    | nil => rwa [join, List.intercalate_singleton]
    | cons q ps =>
      rw [join_cons _ _ (List.cons_ne_nil _ _), List.mem_append, List.mem_append]
      exact not_or.2 ⟨hp, not_or.2 ⟨hsep, ih⟩⟩

theorem getLast_suffix_join {sep : Str} {ps : List Str} {p : Str} (h : ps.getLast? = some p) :
    p <:+ join sep ps := by
  induction ps with
  | nil => cases h
  | cons q ps ih =>
    cases ps with
    | nil =>
      obtain rfl := Option.some.inj h
      exact ⟨[], by simp [join]⟩
    | cons q' ps =>
      rw [List.getLast?_cons_cons] at h
      rw [join_cons _ _ (List.cons_ne_nil _ _)]
      exact ((ih h).trans (List.suffix_append _ _)).trans (List.suffix_append _ _)

theorem join_append_sep {sep : Str} {ps : List Str} (h : ps ≠ []) :
    join sep ps ++ sep = ps.flatMap (· ++ sep) := by
  induction ps with
  | nil => exact absurd rfl h
  | cons p ps ih =>
    cases ps with
    | nil => simp [join]
    | cons q ps =>
      rw [join_cons _ _ (List.cons_ne_nil _ _), List.flatMap_cons, ← ih (List.cons_ne_nil _ _)]
      simp only [List.append_assoc]

theorem splitOnce_join {c : Char} {p : Str} (h : c ∉ p) {ps : List Str} (hps : ps ≠ []) :
    splitOnce c (join [c] (p :: ps)) = some (p, join [c] ps) := by
  rw [join_cons [c] p hps]
  exact splitOnce_append h _

/-- Cutting as many pieces as were joined gives them back; only the last may have the separator. -/
theorem splitn_join {c : Char} {ps : List Str} (h : ∀ p ∈ ps, c ∉ p) (last : Str) :
    splitn c (ps.length + 1) (join [c] (ps ++ [last])) = ps ++ [last] := by
  induction ps with
  | nil => rw [List.nil_append, join, List.intercalate_singleton]; rfl
  | cons p ps ih =>
    rw [List.length_cons, splitn, List.cons_append,
      splitOnce_join (h p List.mem_cons_self) (List.append_ne_nil_of_right_ne_nil ps (by simp))]
    simp only [ih fun q hq => h q (List.mem_cons_of_mem _ hq)]

theorem infix_join_of_mem {sep p : Str} {ps : List Str} (h : p ∈ ps) : p <:+: join sep ps := by
  induction ps with
  | nil => cases h
  | cons q ps ih =>
    cases ps with
    | nil => rw [List.mem_singleton.1 h, join, List.intercalate_singleton]
    | cons r ps =>
      rw [join_cons sep q (List.cons_ne_nil r ps)]
      rcases List.mem_cons.1 h with rfl | h
      · exact (List.prefix_append _ _).isInfix
      · exact (ih h).trans
          ((List.suffix_append _ _).trans (List.suffix_append _ _)).isInfix

theorem infix_of_mem_split {c : Char} {s p : Str} (h : p ∈ split c s) : p <:+: s := by
  have hj : p <:+: join [c] (split c s) := infix_join_of_mem h
  rwa [join, split, List.intercalate_splitOn] at hj

theorem notMem_of_mem_split {c : Char} {s p : Str} (h : p ∈ split c s) : c ∉ p := by
  induction s generalizing p with
  | nil =>
    obtain rfl := List.mem_singleton.1 h
    exact List.not_mem_nil
  | cons d s ih =>
    rw [split, List.splitOn_cons_eq_if_modifyHead] at h
    split_ifs at h with hd
    · rcases List.mem_cons.1 h with rfl | h
      · exact List.not_mem_nil
      · exact ih h
    · cases hs : s.splitOn c with
      | nil => exact absurd hs (List.splitOn_ne_nil c s)
      | cons q qs =>
        rw [hs, List.modifyHead_cons] at h
        have hq : ∀ q' ∈ q :: qs, c ∉ q' := fun q' hq' => ih (by rw [split, hs]; exact hq')
        rcases List.mem_cons.1 h with rfl | h
        · rw [List.mem_cons, not_or]
          exact ⟨fun he => hd (by rw [he]; exact beq_self_eq_true d), hq q List.mem_cons_self⟩
        · exact hq p (List.mem_cons_of_mem _ h)

/-! ### Where a part of a glued text lies -/

theorem infix_append_cons {c : Char} {m a b : Str} (hc : c ∉ m) (h : m <:+: a ++ c :: b) :
    m <:+: a ∨ m <:+: b := by
  obtain ⟨p, q, h⟩ := h
  rw [List.append_assoc] at h
  rcases List.append_eq_append_iff.1 h with ⟨a', rfl, hr⟩ | ⟨p', rfl, hr⟩
  · rcases List.append_eq_append_iff.1 hr with ⟨a'', rfl, -⟩ | ⟨m', rfl, hr'⟩
    · exact .inl ⟨p, a'', by rw [List.append_assoc]⟩
    · cases m' with
      | nil => exact .inl ⟨p, [], by simp⟩
      | cons d m' =>
        rw [(List.cons.inj hr').1] at hc
        simp at hc
  · cases p' with
    | nil =>
      cases m with
      | nil => exact .inl List.nil_infix
      | cons d m =>
        rw [(List.cons.inj hr).1] at hc
        simp at hc
    | cons d p' => exact .inr ⟨p', q, by
        rw [(List.cons.inj hr).2, List.append_assoc]
        rfl⟩

/-- A part whose first character is not in `a` lies behind it. -/
theorem infix_of_infix_append {d : Char} {m a b : Str} (hd : d ∉ a) (h : d :: m <:+: a ++ b) :
    d :: m <:+: b := by
  induction a with
  | nil => exact h
  | cons c a ih =>
    rw [List.mem_cons, not_or] at hd
    rw [List.cons_append, List.infix_cons_iff] at h
    rcases h with h | h
    · exact absurd (List.cons_prefix_cons.1 h).1 hd.1
    · exact ih hd.2 h

theorem infix_of_infix_lines {d : Char} {m : Str} {ls : List Str} (hlf : '\n' ∉ d :: m)
    (h : d :: m <:+: ls.flatMap (· ++ ['\n'])) : ∃ l ∈ ls, d :: m <:+: l := by
  induction ls with
  | nil => simp at h
  | cons l ls ih =>
    rw [List.flatMap_cons, List.append_assoc, List.singleton_append] at h
    rcases infix_append_cons hlf h with h | h
    · exact ⟨l, List.mem_cons_self, h⟩
    · obtain ⟨l', hl', h⟩ := ih h
      exact ⟨l', List.mem_cons_of_mem _ hl', h⟩

theorem infix_of_infix_join {c d : Char} {sep m : Str} {ps : List Str} (hc : c ∉ d :: m)
    (hd : d ∉ sep) (h : d :: m <:+: join (c :: sep) ps) : ∃ p ∈ ps, d :: m <:+: p := by
  induction ps with
  | nil => simp [join] at h
  | cons p ps ih =>
    by_cases hps : ps = []
    · rw [hps, join, List.intercalate_singleton] at h
      exact ⟨p, List.mem_cons_self, h⟩
    · rw [join_cons _ _ hps, List.cons_append] at h
      rcases infix_append_cons hc h with h | h
      · exact ⟨p, List.mem_cons_self, h⟩
      · obtain ⟨q, hq, h⟩ := ih (infix_of_infix_append hd h)
        exact ⟨q, List.mem_cons_of_mem _ hq, h⟩

theorem append_cons_inj {c : Char} {a b s t : Str} (ha : c ∉ a) (hb : c ∉ b)
    (h : a ++ c :: s = b ++ c :: t) : a = b ∧ s = t := by
  have hcut := splitOnce_append ha s
  rw [h, splitOnce_append hb] at hcut
  simpa using (Option.some.inj hcut).symm

/-- A word and a separator begin a text exactly when the word is its first piece. -/
theorem concat_prefix_append_cons {c : Char} {w d g : Str} (hw : c ∉ w) (hd : c ∉ d) :
    w ++ [c] <+: d ++ c :: g ↔ w = d := by
  constructor
  · rintro ⟨t, ht⟩
    have ht : w ++ c :: t = d ++ c :: g := by simpa using ht
    exact (append_cons_inj hw hd ht).1
  · rintro rfl
    exact ⟨g, by simp⟩

theorem concat_infix_append_cons {c : Char} {w d g : Str} (hw : c ∉ w) (hd : c ∉ d) :
    w ++ [c] <:+: d ++ c :: g ↔ w <:+ d ∨ w ++ [c] <:+: g := by
  constructor
  · rintro ⟨p, q, h⟩
    by_cases hp : c ∈ p
    · obtain ⟨p₁, p₂, rfl, hp₁⟩ := List.eq_append_cons_of_mem hp
      have h : p₁ ++ c :: (p₂ ++ (w ++ [c]) ++ q) = d ++ c :: g := by simpa using h
      obtain ⟨-, rfl⟩ := append_cons_inj hp₁ hd h
      exact .inr ⟨p₂, q, rfl⟩
    · have hpw : c ∉ p ++ w := by simp [hp, hw]
      have h : (p ++ w) ++ c :: q = d ++ c :: g := by simpa using h
      obtain ⟨rfl, -⟩ := append_cons_inj hpw hd h
      exact .inl ⟨p, rfl⟩
  · rintro (⟨p, rfl⟩ | ⟨p, q, rfl⟩)
    · exact ⟨p, g, by simp⟩
    · exact ⟨d ++ c :: p, q, by simp⟩

theorem append_lt_append_iff {a b s t : Str} (h : a.length = b.length) :
    a ++ s < b ++ t ↔ a < b ∨ a = b ∧ s < t := by
  induction a generalizing b with
  | nil =>
    obtain rfl := List.eq_nil_of_length_eq_zero h.symm
    simp
  | cons x a ih =>
    cases b with
    | nil => cases h
    | cons y b =>
      have h : a.length = b.length := Nat.succ.inj h
      rw [List.cons_append, List.cons_append, List.cons_lt_cons_iff, List.cons_lt_cons_iff, ih h,
        List.cons.injEq]
      tauto

/-- Cutting a joined list at the separator's first character gives the pieces back, each but
the first with the rest of the separator before it. -/
theorem split_join {c : Char} {sep : Str} (hsep : c ∉ sep) (p : Str) (ps : List Str)
    (h : ∀ q ∈ p :: ps, c ∉ q) :
    split c (join (c :: sep) (p :: ps)) = p :: ps.map (sep ++ ·) := by
  have hjoin : join (c :: sep) (p :: ps) = [c].intercalate (p :: ps.map (sep ++ ·)) := by
    clear h
    induction ps generalizing p with
    | nil => rfl
    | cons q ps ih =>
      have := ih q
      simp only [join, List.intercalate, List.map_cons] at this ⊢
      cases ps <;> simp_all [List.intersperse]
  rw [split, hjoin]
  refine List.splitOn_intercalate c (fun q hq => ?_) (by simp)
  rcases List.mem_cons.1 hq with rfl | hq
  · exact h _ (by simp)
  · obtain ⟨r, hr, rfl⟩ := List.mem_map.1 hq
    simp [hsep, h r (List.mem_cons_of_mem _ hr)]

/-- The text before and after the first occurrence of `pat`. -/
def find (pat : Str) : Str → Option (Str × Str)
  | [] => if pat = [] then some ([], []) else none
  | c :: s =>
    match stripPrefix (c :: s) pat with
    | some rest => some ([], rest)
    | none => (find pat s).map fun r => (c :: r.1, r.2)

/-! ### Bytes -/

/-- The length of the UTF-8 form. -/
def byteLength (s : Str) : ℕ := (s.map Char.utf8Size).sum

/-- The characters in the first `n` bytes; none unless a character ends there. -/
def takeBytes : ℕ → Str → Option Str
  | 0, _ => some []
  | _ + 1, [] => none
  | n + 1, c :: s =>
    if c.utf8Size ≤ n + 1 then (takeBytes (n + 1 - c.utf8Size) s).map (c :: ·) else none

theorem byteLength_of_ascii {s : Str} (h : ∀ c ∈ s, c.utf8Size = 1) : byteLength s = s.length := by
  induction s with
  | nil => rfl
  | cons c s ih =>
    have ih := ih fun d hd => h d (List.mem_cons_of_mem _ hd)
    rw [byteLength] at ih ⊢
    rw [List.map_cons, List.sum_cons, ih, h c List.mem_cons_self, List.length_cons, Nat.add_comm]

theorem takeBytes_of_ascii {s : Str} (h : ∀ c ∈ s, c.utf8Size = 1) :
    takeBytes s.length s = some s := by
  induction s with
  | nil => rfl
  | cons c s ih =>
    have hc := h c List.mem_cons_self
    rw [List.length_cons, takeBytes, hc, if_pos (Nat.le_add_left _ _), Nat.add_sub_cancel,
      ih fun d hd => h d (List.mem_cons_of_mem _ hd)]
    rfl

/-! ### Debug rendering -/

/-- The Unicode tables that `{:?}` consults for a character that has no escape of its own. -/
structure CharTables where
  /-- `Grapheme_Extend`. -/
  graphemeExtended : Char → Bool
  /-- `is_printable`. -/
  printable : Char → Bool
  /-- In ASCII only the control characters are not printable. -/
  ascii : ∀ c : Char, c.toNat < 128 →
    graphemeExtended c = false ∧ printable c = (decide (32 ≤ c.toNat) && decide (c.toNat < 127))

/-- Tables that print the printable characters of ASCII only. -/
def CharTables.asciiOnly : CharTables where
  graphemeExtended _ := false
  printable c := decide (32 ≤ c.toNat) && decide (c.toNat < 127)
  ascii _ _ := ⟨rfl, rfl⟩

/-- A lower-case hexadecimal digit. -/
def hexDigit (k : ℕ) : Char := "0123456789abcdef".toList.getD k '0'

/-- `char::escape_unicode`: `\\u{…}` with the code point in hexadecimal. -/
def escapeUnicode (c : Char) : Str :=
  let nibbles := (List.range 6).reverse.map fun i => hexDigit (c.toNat / 16 ^ i % 16)
  "\\u\x7b".toList ++ nibbles.dropWhile (· = '0') ++ "\x7d".toList

variable (T : CharTables)

/-- `char::escape_debug_ext` as `str`'s `Debug` calls it (single quotes are not escaped). -/
def escapeDebug (c : Char) : Str :=
  if c = '\x00' then "\\0".toList
  else if c = '\t' then "\\t".toList
  else if c = '\r' then "\\r".toList
  else if c = '\n' then "\\n".toList
  else if c = '"' then "\\\"".toList
  else if c = '\\' then "\\\\".toList
  else if T.graphemeExtended c then escapeUnicode c
  else if T.printable c then [c]
  else escapeUnicode c

/-- `format!("{s:?}")`. -/
def debug (s : Str) : Str := '"' :: (s.flatMap (escapeDebug T) ++ ['"'])

/-- `{:?}` writes the character as it is. -/
def Plain (c : Char) : Prop := escapeDebug T c = [c]

instance (c : Char) : Decidable (Plain T c) := inferInstanceAs (Decidable (_ = _))

variable {T}

/-- The characters of an escape sequence behind its backslash. -/
def escapeTail : Str := "\\\"tnru\x7b\x7d0123456789abcdef".toList

theorem hexDigit_mem (k : ℕ) : hexDigit k ∈ escapeTail := by
  rw [hexDigit, List.getD_eq_getElem?_getD]
  cases hk : "0123456789abcdef".toList[k]? with
  | none => decide
  | some d =>
    exact (show "0123456789abcdef".toList ⊆ escapeTail by decide) (List.mem_of_getElem? hk)

theorem escapeUnicode_spec (c : Char) :
    ∃ tail, escapeUnicode c = '\\' :: tail ∧ ∀ d ∈ tail, d ∈ escapeTail := by
  refine ⟨_, rfl, fun d hd => ?_⟩
  rcases List.mem_cons.1 hd with rfl | hd
  · decide
  rcases List.mem_cons.1 hd with rfl | hd
  · decide
  rcases List.mem_append.1 hd with hd | hd
  · obtain ⟨i, -, rfl⟩ := List.mem_map.1 ((List.dropWhile_sublist _).subset hd)
    exact hexDigit_mem _
  · rw [List.mem_singleton.1 hd]
    decide

theorem escapeDebug_cases (c : Char) : (escapeDebug T c = [c] ∧ c ≠ '\n') ∨
    ∃ tail, escapeDebug T c = '\\' :: tail ∧ ∀ d ∈ tail, d ∈ escapeTail := by
  rw [escapeDebug]
  split_ifs with h0 ht hr hn hq hb hg hp
  all_goals first
    | exact .inr (escapeUnicode_spec c)
    | exact .inl ⟨rfl, hn⟩
    | exact .inr ⟨[_], rfl, List.forall_mem_singleton.2 (by decide)⟩

theorem length_escapeUnicode (c : Char) : 1 < (escapeUnicode c).length := by
  have : "\\u\x7b".toList.length = 3 := by decide
  simp only [escapeUnicode, List.length_append, this]
  omega

theorem lf_notMem_escapeDebug (c : Char) : '\n' ∉ escapeDebug T c := by
  rcases escapeDebug_cases (T := T) c with ⟨h, hne⟩ | ⟨tail, h, htail⟩
  · rw [h]
    exact fun hm => hne (List.mem_singleton.1 hm).symm
  · rw [h, List.mem_cons, not_or]
    exact ⟨by decide, fun hm => absurd (htail _ hm) (by decide)⟩

theorem lf_notMem_debug (s : Str) : '\n' ∉ debug T s := by
  simp only [debug, List.mem_cons, List.mem_append, List.mem_flatMap, not_or, not_exists]
  exact ⟨by decide, fun c hc => lf_notMem_escapeDebug c hc.2, by decide, by simp⟩

theorem one_le_length_escapeDebug (c : Char) : 1 ≤ (escapeDebug T c).length := by
  rw [escapeDebug]
  have := length_escapeUnicode c
  split_ifs <;> first | omega | simp

theorem one_lt_length_escapeDebug {c : Char} (h : ¬ Plain T c) : 1 < (escapeDebug T c).length := by
  rw [Plain] at h
  rw [escapeDebug] at h ⊢
  have := length_escapeUnicode c
  split_ifs at h ⊢ <;> first | omega | exact absurd rfl h | simp

theorem flatMap_escapeDebug_eq_self {s : Str} :
    s.flatMap (escapeDebug T) = s ↔ ∀ c ∈ s, Plain T c := by
  have hlen : ∀ s : Str, s.length ≤ (s.flatMap (escapeDebug T)).length := by
    intro s
    induction s with
    | nil => simp
    | cons c s ih =>
      have := one_le_length_escapeDebug (T := T) c
      simp only [List.flatMap_cons, List.length_append, List.length_cons]
      omega
  constructor
  · intro h
    induction s with
    | nil => simp
    | cons c s ih =>
      by_cases hc : Plain T c
      · rw [List.flatMap_cons, hc] at h
        simp only [List.singleton_append, List.cons.injEq, true_and] at h
        intro d hd
        rcases List.mem_cons.1 hd with rfl | hd
        · exact hc
        · exact ih h d hd
      · have h1 := one_lt_length_escapeDebug hc
        have h2 := hlen s
        have h3 := congrArg List.length h
        simp only [List.flatMap_cons, List.length_append, List.length_cons] at h3
        omega
  · intro h
    induction s with
    | nil => rfl
    | cons c s ih =>
      rw [List.flatMap_cons, h c (by simp), ih fun d hd => h d (List.mem_cons_of_mem _ hd)]
      rfl

theorem prefix_of_prefix_escape {m s : Str} (hb : '\\' ∉ m)
    (h : m <+: s.flatMap (escapeDebug T)) : m <+: s := by
  induction s generalizing m with
  | nil => exact h
  | cons c s ih =>
    cases m with
    | nil => exact List.nil_prefix
    | cons d m =>
      rw [List.mem_cons, not_or] at hb
      rw [List.flatMap_cons] at h
      rcases escapeDebug_cases (T := T) c with ⟨hc, -⟩ | ⟨tail, hc, -⟩ <;> rw [hc] at h
      · rw [List.singleton_append] at h
        obtain ⟨rfl, hm⟩ := List.cons_prefix_cons.1 h
        exact List.cons_prefix_cons.2 ⟨rfl, ih hb.2 hm⟩
      · exact absurd (List.cons_prefix_cons.1 h).1.symm hb.1

/-- A part of an escaped text that no escape sequence can hold is a part of the text. -/
theorem infix_of_infix_debug {d : Char} {m s : Str} (hd : d ∉ escapeTail) (hb : '\\' ∉ d :: m)
    (hq : '"' ∉ d :: m) (h : d :: m <:+: debug T s) : d :: m <:+: s := by
  have hquoted : d :: m <:+: s.flatMap (escapeDebug T) := by
    have hlone : ¬ d :: m <:+: [] := by simp
    rw [debug, ← List.nil_append ('"' :: _)] at h
    have h := (infix_append_cons hq h).resolve_left hlone
    exact (infix_append_cons hq h).resolve_right hlone
  clear h
  induction s with
  | nil => simp at hquoted
  | cons c s ih =>
    rw [List.flatMap_cons] at hquoted
    rcases escapeDebug_cases (T := T) c with ⟨hc, -⟩ | ⟨tail, hc, htail⟩
    · rw [hc, List.singleton_append, List.infix_cons_iff] at hquoted
      rcases hquoted with h | h
      · refine List.IsPrefix.isInfix (prefix_of_prefix_escape (T := T) hb ?_)
        rwa [List.flatMap_cons, hc]
      · exact (ih h).trans (List.suffix_cons c s).isInfix
    · refine (ih (infix_of_infix_append (a := escapeDebug T c) ?_ hquoted)).trans
        (List.suffix_cons c s).isInfix
      rw [hc, List.mem_cons, not_or]
      exact ⟨fun he => hb (he ▸ List.mem_cons_self), fun hm => hd (htail d hm)⟩

end Rust
