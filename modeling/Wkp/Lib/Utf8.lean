import Wkp.Lib.Str

/-!
# UTF-8

Files as bytes, and texts as what some of them hold.

* `Rust.utf8`, `Rust.fromUtf8` : the bytes of a text, and the text of bytes that have one.
* `List.rows` : the lines of a file whose content need not be text, without their terminators.
* `List.rows_isPrefix_append` : a file that goes on after a terminator keeps its lines.
* `Rust.toStringLossy` : the text of any bytes, with a mark where they are no text.
* `Rust.rows_utf8` : the lines of the bytes of a text are the bytes of the lines of the text.
-/

namespace List

variable {α : Type*}

/-- A piece before the first of the lines, or a line of its own when there is none. -/
def extendFirst (c : List α) : List (List α) → List (List α)
  | [] => [c]
  | r :: rs => (c ++ r) :: rs

theorem extendFirst_append (c d : List α) (rs : List (List α)) :
    extendFirst (c ++ d) rs = extendFirst c (extendFirst d rs) := by
  cases rs with
  | nil => rfl
  | cons r rs => rw [extendFirst, append_assoc]; rfl

theorem extendFirst_ne_nil (c : List α) (rs : List (List α)) : extendFirst c rs ≠ [] := by
  cases rs <;> exact cons_ne_nil _ _

/-- The file is empty or its last line is ended. -/
def Ended (sep : α) (l : List α) : Prop :=
  l = [] ∨ ∃ m, l = m ++ [sep]

variable {sep : α}

theorem Ended.append {l m : List α} (hl : l.Ended sep) (hm : m.Ended sep) :
    (l ++ m).Ended sep := by
  rcases hm with rfl | ⟨m, rfl⟩
  · rwa [append_nil]
  · exact .inr ⟨l ++ m, (append_assoc ..).symm⟩

theorem ended_flatMap {β : Type*} {f : β → List α} (h : ∀ b, (f b).Ended sep) (bs : List β) :
    (bs.flatMap f).Ended sep := by
  induction bs with
  | nil => exact .inl rfl
  | cons b bs ih => exact (h b).append ih

variable [DecidableEq α]

/-- The lines that `sep` ends, each without it; the last one need not be ended. -/
def rows (sep : α) : List α → List (List α)
  | [] => []
  | a :: l => if a = sep then [] :: rows sep l else extendFirst [a] (rows sep l)

@[simp] theorem rows_nil : rows sep [] = [] := rfl

@[simp] theorem rows_sep_cons (l : List α) : rows sep (sep :: l) = [] :: rows sep l := by
  rw [rows, if_pos rfl]

theorem rows_cons_of_ne {a : α} (h : a ≠ sep) (l : List α) :
    rows sep (a :: l) = extendFirst [a] (rows sep l) := by
  rw [rows, if_neg h]

theorem rows_append_sep_cons (l m : List α) :
    rows sep (l ++ sep :: m) = rows sep (l ++ [sep]) ++ rows sep m := by
  induction l with
  | nil => simp
  | cons a l ih =>
    rw [cons_append, cons_append, rows, rows, ih]
    split_ifs
    · rfl
    · cases h : rows sep (l ++ [sep]) with
      | nil =>
        cases l with
        | nil => simp at h
        | cons b l =>
          rw [cons_append, rows] at h
          split_ifs at h
          exact absurd h (extendFirst_ne_nil _ _)
      | cons r rs => rfl

theorem rows_append_sep (l : List α) :
    rows sep (l ++ [sep]) = rows sep l ∨ rows sep (l ++ [sep]) = rows sep l ++ [[]] := by
  induction l with
  | nil => exact .inr (by simp)
  | cons a l ih =>
    rw [cons_append, rows, rows]
    split_ifs
    · rcases ih with ih | ih <;> simp [ih]
    · rcases ih with ih | ih
      · exact .inl (by rw [ih])
      · rw [ih]
        cases rows sep l with
        | nil => exact .inl rfl
        | cons r rs => exact .inr rfl

theorem rows_isPrefix_append (l m : List α) : rows sep l <+: rows sep (l ++ sep :: m) := by
  rw [rows_append_sep_cons]
  rcases @rows_append_sep _ sep _ l with h | h
  · rw [h]
    exact prefix_append _ _
  · rw [h, append_assoc]
    exact prefix_append _ _

theorem Ended.rows_append {l : List α} (h : l.Ended sep) (m : List α) :
    rows sep (l ++ m) = rows sep l ++ rows sep m := by
  rcases h with rfl | ⟨l, rfl⟩
  · rfl
  · rw [append_assoc, singleton_append, rows_append_sep_cons]

theorem rows_append_of_notMem {c : List α} (hc : sep ∉ c) (hne : c ≠ []) (l : List α) :
    rows sep (c ++ l) = extendFirst c (rows sep l) := by
  induction c with
  | nil => exact absurd rfl hne
  | cons a c ih =>
    rw [mem_cons, not_or] at hc
    rw [cons_append, rows_cons_of_ne (Ne.symm hc.1)]
    cases c with
    | nil => rfl
    | cons b c => rw [ih hc.2 (cons_ne_nil b c), ← extendFirst_append, singleton_append]

/-- The lines are the file, but for the terminator that the last one may lack. -/
theorem flatMap_rows (l : List α) :
    (rows sep l).flatMap (· ++ [sep]) = l ∨ (rows sep l).flatMap (· ++ [sep]) = l ++ [sep] := by
  induction l with
  | nil => exact .inl rfl
  | cons a l ih =>
    rw [rows]
    split_ifs with ha
    · rcases ih with ih | ih <;> simp [ih, ha]
    · cases hrows : rows sep l with
      | nil =>
        rw [hrows] at ih
        cases l <;> simp_all [extendFirst]
      | cons r rs =>
        rw [hrows] at ih
        rcases ih with ih | ih <;> simp_all [extendFirst]

end List

namespace Rust

/-- The UTF-8 bytes of a text. -/
def utf8 (s : Str) : List UInt8 := s.flatMap String.utf8EncodeChar

/-- `String::from_utf8`. -/
def fromUtf8 (bytes : List UInt8) : Option Str := bytes.toByteArray.utf8Decode?.map Array.toList

@[simp] theorem utf8_nil : utf8 [] = [] := rfl

@[simp] theorem utf8_append (s t : Str) : utf8 (s ++ t) = utf8 s ++ utf8 t := List.flatMap_append

theorem toByteArray_utf8 (s : Str) : (utf8 s).toByteArray = s.utf8Encode := rfl

@[simp] theorem fromUtf8_utf8 (s : Str) : fromUtf8 (utf8 s) = some s := by
  rw [fromUtf8, toByteArray_utf8, List.utf8Decode?_utf8Encode]
  rfl

theorem fromUtf8_eq_some_iff {bytes : List UInt8} {s : Str} :
    fromUtf8 bytes = some s ↔ bytes = utf8 s := by
  refine ⟨fun h => ?_, fun h => h ▸ fromUtf8_utf8 s⟩
  obtain ⟨chars, hdecode, rfl⟩ := Option.map_eq_some_iff.1 h
  have hencode := ByteArray.utf8Encode_get_utf8Decode? (b := bytes.toByteArray)
    (h := by rw [hdecode]; rfl)
  simp only [hdecode, Option.get_some] at hencode
  exact List.toByteArray_inj.1 hencode.symm

theorem utf8_injective : Function.Injective utf8 := fun s t h =>
  Option.some_injective _ (by rw [← fromUtf8_utf8 s, h, fromUtf8_utf8])

/-! ### Bytes that are no text -/

/-- How many bytes a character has that starts with the byte; no character starts with the others. -/
def charWidth (b : UInt8) : ℕ :=
  if b < 0x80 then 1
  else if 0xC2 ≤ b ∧ b ≤ 0xDF then 2
  else if 0xE0 ≤ b ∧ b ≤ 0xEF then 3
  else if 0xF0 ≤ b ∧ b ≤ 0xF4 then 4
  else 0

/-- A byte that continues a character. -/
def isContinuation (b : UInt8) : Bool := decide (0x80 ≤ b ∧ b ≤ 0xBF)

/-- The second byte of a character that starts with `b`: not every continuation makes one. -/
def isSecond (b second : UInt8) : Bool :=
  if b = 0xE0 then decide (0xA0 ≤ second ∧ second ≤ 0xBF)
  else if b = 0xED then decide (0x80 ≤ second ∧ second ≤ 0x9F)
  else if b = 0xF0 then decide (0x90 ≤ second ∧ second ≤ 0xBF)
  else if b = 0xF4 then decide (0x80 ≤ second ∧ second ≤ 0x8F)
  else isContinuation second

/-- The first character and how many bytes of the rest belong to it.  Where there is none, the mark
stands for the longest start of a character. -/
def nextChar (b : UInt8) (rest : List UInt8) : Char × ℕ :=
  let width := charWidth b
  let more := match rest with
    | [] => []
    | second :: rest =>
      if 2 ≤ width ∧ isSecond b second then
        second :: (rest.take (width - 2)).takeWhile isContinuation
      else []
  if more.length + 1 = width then
    let lead := b.toNat % if width = 1 then 128 else 2 ^ (7 - width)
    (Char.ofNat (more.foldl (fun value b => value * 64 + b.toNat % 64) lead), more.length)
  else (Char.ofNat 0xFFFD, more.length)

/-- The text of the bytes after the first `skip`. -/
def toStringLossyLoop : List UInt8 → ℕ → Str
  | [], _ => []
  | _ :: rest, skip + 1 => toStringLossyLoop rest skip
  | b :: rest, 0 => (nextChar b rest).1 :: toStringLossyLoop rest (nextChar b rest).2

/-- `OsStr::to_string_lossy`. -/
def toStringLossy (bytes : List UInt8) : Str := toStringLossyLoop bytes 0

example : toStringLossy (utf8 "aé€😀".toList) = "aé€😀".toList := by decide +kernel

example : toStringLossy [0x61, 0xE9, 0x0A, 0xE2, 0x82] = "a\uFFFD\n\uFFFD".toList := by
  decide +kernel

/-! ### Lines -/

/-- The byte of a line feed. -/
def lf : UInt8 := 10

theorem utf8EncodeChar_lf : String.utf8EncodeChar '\n' = [lf] := rfl

@[simp] theorem utf8_lf : utf8 ['\n'] = [lf] := rfl

theorem ofNat_ne_lf {n : ℕ} (h : n < 256) (hn : n ≠ 10) : UInt8.ofNat n ≠ lf := by
  intro heq
  have hmod := congrArg UInt8.toNat heq
  rw [UInt8.toNat_ofNat', Nat.mod_eq_of_lt h] at hmod
  exact hn hmod

/-- Every byte of a character of several bytes is above the ASCII range. -/
theorem lf_notMem_utf8EncodeChar {c : Char} (h : c ≠ '\n') : lf ∉ String.utf8EncodeChar c := by
  have hval : c.val.toNat ≠ 10 := fun hval => h (Char.ext (UInt32.toNat_inj.1 hval))
  rw [String.utf8EncodeChar]
  intro hmem
  split_ifs at hmem <;> simp only [List.mem_cons, List.not_mem_nil, or_false] at hmem
  · exact ofNat_ne_lf (by omega) hval hmem.symm
  · rcases hmem with hmem | hmem <;> exact ofNat_ne_lf (by omega) (by omega) hmem.symm
  · rcases hmem with hmem | hmem | hmem <;> exact ofNat_ne_lf (by omega) (by omega) hmem.symm
  · rcases hmem with hmem | hmem | hmem | hmem <;>
      exact ofNat_ne_lf (by omega) (by omega) hmem.symm

theorem map_utf8_extendFirst (c : Char) (rs : List Str) :
    (List.extendFirst [c] rs).map utf8 = List.extendFirst (String.utf8EncodeChar c) (rs.map utf8) := by
  cases rs <;> simp [List.extendFirst, utf8]

theorem rows_utf8 (s : Str) : (utf8 s).rows lf = (s.rows '\n').map utf8 := by
  induction s with
  | nil => rfl
  | cons c s ih =>
    rw [List.rows, utf8, List.flatMap_cons, ← utf8]
    split_ifs with hc
    · rw [hc, utf8EncodeChar_lf, List.singleton_append, List.rows_sep_cons, ih]
      rfl
    · rw [List.rows_append_of_notMem (lf_notMem_utf8EncodeChar hc) String.utf8EncodeChar_ne_nil, ih,
        map_utf8_extendFirst]

theorem getD_stripSuffix_cons {c : Char} (hc : c ≠ '\n') (l : Str) :
    (stripSuffix (c :: l) ['\n']).getD (c :: l) = c :: (stripSuffix l ['\n']).getD l := by
  cases hl : stripSuffix l ['\n'] with
  | some r =>
    obtain rfl := stripSuffix_eq_some_iff.1 hl
    rw [← List.cons_append, stripSuffix_append]
    rfl
  | none =>
    cases hcl : stripSuffix (c :: l) ['\n'] with
    | none => rfl
    | some r =>
      rw [stripSuffix_eq_some_iff] at hcl
      cases r with
      | nil => exact absurd (List.cons.inj hcl).1 hc
      | cons d r =>
        rw [(List.cons.inj hcl).2] at hl
        exact absurd hl (by rw [List.append_eq, stripSuffix_append]; exact Option.some_ne_none r)

theorem rows_eq_map_splitInclusive (s : Str) :
    s.rows '\n' = (splitInclusive s).map fun l => (stripSuffix l ['\n']).getD l := by
  induction s with
  | nil => rfl
  | cons c s ih =>
    rw [List.rows, splitInclusive, ih]
    split_ifs with hc
    · rw [hc]
      rfl
    · cases splitInclusive s with
      | nil => exact congrArg (· :: []) (getD_stripSuffix_cons hc []).symm
      | cons l ls => exact congrArg (· :: _) (getD_stripSuffix_cons hc l).symm

/-- A line as `str::lines` gives it may lack the carriage return of the line of the file. -/
theorem exists_row_of_mem_lines {s line : Str} (h : line ∈ lines s) :
    ∃ row ∈ s.rows '\n', trim row = trim line := by
  obtain ⟨piece, hpiece, rfl⟩ := List.mem_map.1 h
  refine ⟨(stripSuffix piece ['\n']).getD piece, ?_, ?_⟩
  · rw [rows_eq_map_splitInclusive]
    exact List.mem_map_of_mem hpiece
  · rw [stripLineEnding]
    cases stripSuffix piece ['\n'] with
    | none => rfl
    | some l =>
      cases hl : stripSuffix l ['\r'] with
      | none => simp [hl]
      | some r =>
        obtain rfl := stripSuffix_eq_some_iff.1 hl
        simpa [hl] using trim_concat (by decide)

theorem exists_of_utf8_eq_append_lf {s : Str} {bytes : List UInt8} (h : utf8 s = bytes ++ [lf]) :
    ∃ t, bytes = utf8 t := by
  rcases List.eq_nil_or_concat s with rfl | ⟨t, c, rfl⟩
  · simp at h
  · rw [List.concat_eq_append, utf8_append, utf8, utf8, List.flatMap_singleton, ← utf8] at h
    have hc : c = '\n' := by
      by_contra hc
      refine lf_notMem_utf8EncodeChar hc (List.mem_of_getLast? ?_)
      rw [← List.getLast?_append_of_ne_nil (utf8 t) String.utf8EncodeChar_ne_nil, h,
        List.getLast?_concat]
    rw [hc, utf8EncodeChar_lf] at h
    exact ⟨t, (List.append_cancel_right h).symm⟩

theorem exists_utf8_of_rows {bytes : List UInt8} (h : ∀ row ∈ bytes.rows lf, ∃ t, row = utf8 t) :
    ∃ t, bytes = utf8 t := by
  have hflat : ∀ rows : List (List UInt8), (∀ row ∈ rows, ∃ t, row = utf8 t) →
      ∃ t, rows.flatMap (· ++ [lf]) = utf8 t := by
    intro rows hrows
    induction rows with
    | nil => exact ⟨[], rfl⟩
    | cons row rows ih =>
      obtain ⟨t, rfl⟩ := hrows row List.mem_cons_self
      obtain ⟨u, hu⟩ := ih fun row hrow => hrows row (List.mem_cons_of_mem _ hrow)
      exact ⟨t ++ ['\n'] ++ u, by rw [List.flatMap_cons, hu, utf8_append, utf8_append, utf8_lf]⟩
  obtain ⟨t, ht⟩ := hflat _ h
  rcases @List.flatMap_rows _ lf _ bytes with heq | heq
  · exact ⟨t, heq.symm.trans ht⟩
  · exact exists_of_utf8_eq_append_lf (ht.symm.trans heq)

/-- **What text keeps.**  Only text has all its lines in a text, and then as lines of text. -/
theorem rows_sublist_utf8_iff {bytes : List UInt8} {s : Str} :
    (bytes.rows lf).Sublist ((utf8 s).rows lf) ↔
      ∃ t, bytes = utf8 t ∧ (t.rows '\n').Sublist (s.rows '\n') := by
  refine ⟨fun h => ?_, ?_⟩
  · obtain ⟨t, rfl⟩ := exists_utf8_of_rows fun row hrow => by
      have hmem := h.subset hrow
      rw [rows_utf8] at hmem
      obtain ⟨t, -, rfl⟩ := List.mem_map.1 hmem
      exact ⟨t, rfl⟩
    rw [rows_utf8, rows_utf8] at h
    obtain ⟨l, hl, heq⟩ := List.sublist_map_iff.1 h
    obtain rfl := List.map_injective_iff.2 utf8_injective heq
    exact ⟨t, rfl, hl⟩
  · rintro ⟨t, rfl, h⟩
    rw [rows_utf8, rows_utf8]
    exact h.map utf8

end Rust
