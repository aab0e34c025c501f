import Wkp.Lib.Files
import Mathlib.Data.Char
import Mathlib.Data.List.Lex
import Mathlib.Data.List.Sort
import Mathlib.Tactic.IntervalCases

/-!
# Output of git

Names of paths in the output of git, and the commands that print one a line.

* `Git.quotePath` : a path as git prints it, in quotes unless it is `Git.Unquoted`.
* `Git.printNames`, `Git.lines_printNames` : paths printed one a line, and read back.
* `Git.listFilesAtRef`, `Git.readBlob` : the paths of a tree, and what it holds at one.
-/

namespace Wkp

open Rust

namespace Git

/-! ### Quoted paths -/

/-- A character that git prints as it is in a path. -/
def isPlain (c : Char) : Bool :=
  decide (0x20 ≤ c.toNat ∧ c.toNat < 0x7F ∧ c ≠ '"' ∧ c ≠ '\\')

/-- The last octal digit of a number. -/
def octalDigit (n : ℕ) : Char := Char.ofNat (48 + n % 8)

/-- The escape of a byte: its letter, or its three octal digits. -/
def escapeByte (b : UInt8) : Str :=
  '\\' :: match b with
    | 7 => ['a'] | 8 => ['b'] | 9 => ['t'] | 10 => ['n'] | 11 => ['v'] | 12 => ['f'] | 13 => ['r']
    | 0x22 => ['"'] | 0x5C => ['\\']
    | _ => [octalDigit (b.toNat / 64), octalDigit (b.toNat / 8), octalDigit b.toNat]

/-- A character of a path in quotes. -/
def quoteChar (c : Char) : Str :=
  if isPlain c then [c] else (String.utf8EncodeChar c).flatMap escapeByte

/-- Git prints the path as it is. -/
def Unquoted (p : Str) : Prop := ∀ c ∈ p, isPlain c = true

instance (p : Str) : Decidable (Unquoted p) := List.decidableBAll _ p

/-- A path in the output of git (`core.quotePath`). -/
def quotePath (p : Str) : Str :=
  if Unquoted p then p else '"' :: (p.flatMap quoteChar ++ ['"'])

/-- A printable character of ASCII. -/
def Printable (c : Char) : Prop := 0x20 ≤ c.toNat ∧ c.toNat < 0x7F

theorem printable_of_isPlain {c : Char} (h : isPlain c = true) : Printable c := by
  rw [isPlain, decide_eq_true_iff] at h
  exact ⟨h.1, h.2.1⟩

theorem printable_octalDigit (n : ℕ) : Printable (octalDigit n) := by
  rw [octalDigit]
  have hn : n % 8 < 8 := Nat.mod_lt _ (by omega)
  generalize n % 8 = m at hn
  interval_cases m <;> exact ⟨by decide, by decide⟩

theorem printable_escapeByte {b : UInt8} {c : Char} (h : c ∈ escapeByte b) : Printable c := by
  have hascii : ∀ l : Str, (l.all fun d => 0x20 ≤ d.toNat ∧ d.toNat < 0x7F) = true → c ∈ l →
      0x20 ≤ c.toNat ∧ c.toNat < 0x7F := fun l hl hc => of_decide_eq_true (List.all_eq_true.1 hl c hc)
  unfold escapeByte at h
  rcases List.mem_cons.1 h with rfl | h
  · exact ⟨by decide, by decide⟩
  · split at h
    case h_10 =>
      simp only [List.mem_cons, List.not_mem_nil, or_false] at h
      rcases h with rfl | rfl | rfl <;> exact printable_octalDigit _
    all_goals exact hascii _ (by decide) h

theorem printable_quotePath {p : Str} {c : Char} (h : c ∈ quotePath p) : Printable c := by
  rw [quotePath] at h
  split_ifs at h with hp
  · exact printable_of_isPlain (hp c h)
  · have hquote : Printable '"' := ⟨by decide, by decide⟩
    rcases List.mem_cons.1 h with rfl | h
    · exact hquote
    rcases List.mem_append.1 h with h | h
    · obtain ⟨d, -, hd⟩ := List.mem_flatMap.1 h
      rw [quoteChar] at hd
      split_ifs at hd with hplain
      · rw [List.mem_singleton.1 hd]
        exact printable_of_isPlain hplain
      · obtain ⟨b, -, hb⟩ := List.mem_flatMap.1 hd
        exact printable_escapeByte hb
    · rw [List.mem_singleton.1 h]
      exact hquote

theorem notMem_quotePath {c : Char} (hc : ¬ Printable c) (p : Str) : c ∉ quotePath p :=
  fun h => hc (printable_quotePath h)

theorem quotePath_of_unquoted {p : Str} (h : Unquoted p) : quotePath p = p := if_pos h

theorem getLast?_quotePath {p : Str} (h : ¬ Unquoted p) : (quotePath p).getLast? = some '"' := by
  rw [quotePath, if_neg h, ← List.cons_append, List.getLast?_append]
  rfl

/-- No path that git prints as it is looks like one in quotes. -/
theorem getLast?_ne_of_unquoted {p : Str} (h : Unquoted p) : p.getLast? ≠ some '"' := by
  intro hp
  exact absurd (h _ (List.mem_of_getLast? hp)) (by decide)

/-! ### Lists of paths -/

/-- Paths printed one a line. -/
def printNames (paths : List Str) : Str := (paths.map quotePath).flatMap (· ++ ['\n'])

theorem lines_printNames (paths : List Str) : lines (printNames paths) = paths.map quotePath := by
  refine lines_flatMap fun l hl => ?_
  obtain ⟨p, -, rfl⟩ := List.mem_map.1 hl
  exact ⟨notMem_quotePath (by unfold Printable; decide) p,
    notMem_quotePath (by unfold Printable; decide) p⟩

/-- Paths in the order of their bytes. -/
def sortPaths (paths : List Str) : List Str := paths.mergeSort fun p q => decide (p ≤ q)

@[simp] theorem mem_sortPaths {paths : List Str} {p : Str} : p ∈ sortPaths paths ↔ p ∈ paths :=
  List.mem_mergeSort

theorem sortPaths_eq_of_perm {paths paths' : List Str} (h : paths.Perm paths') :
    sortPaths paths = sortPaths paths' :=
  ((List.mergeSort_perm paths _).trans (h.trans (List.mergeSort_perm paths' _).symm)).eq_of_pairwise'
    (List.pairwise_mergeSort' (r := (· ≤ ·)) _) (List.pairwise_mergeSort' (r := (· ≤ ·)) _)

/-- `git ls-tree -r --name-only HEAD`, read line by line.  With no commit yet there is no `HEAD`. -/
def listFilesAtRef (head : Option Files) : Except Str (List Str) :=
  match head with
  | none => .error "fatal: Not a valid object name HEAD".toList
  | some tree => .ok (lines (printNames (sortPaths tree.keys)))

/-- `git cat-file -p HEAD:path`. -/
def readBlob (head : Option Files) (path : Str) : Except Str Content :=
  match head.bind (AList.lookup path) with
  | none => .error ("fatal: path '".toList ++ path ++ "' does not exist in 'HEAD'".toList)
  | some blob => .ok blob

end Git

end Wkp
