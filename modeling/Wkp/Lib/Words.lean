import Wkp.Lib.Str

/-!
# Words

* `mem_of_mem_splitOnP`, `of_mem_splitWhitespace` : what is in the words of a text.
* `splitWhitespace_word`, `splitWhitespace_word_cons` : the words of a text that is made of words.
-/

namespace Rust

theorem mem_of_mem_splitOnP {p : Char → Bool} {s w : Str} (h : w ∈ s.splitOnP p) {c : Char}
    (hc : c ∈ w) : c ∈ s ∧ p c = false := by
  induction s generalizing w with
  | nil =>
    rw [List.splitOnP_nil, List.mem_singleton] at h
    rw [h] at hc
    cases hc
  | cons d s ih =>
    rw [List.splitOnP_cons_eq_if_modifyHead] at h
    split_ifs at h with hd
    · rcases List.mem_cons.1 h with rfl | h
      · cases hc
      · exact (ih h hc).imp_left (List.mem_cons_of_mem _)
    · cases hs : s.splitOnP p with
      | nil => exact absurd hs (List.splitOnP_ne_nil p s)
      | cons q qs =>
        rw [hs, List.modifyHead_cons] at h
        rw [hs] at ih
        rcases List.mem_cons.1 h with rfl | h
        · rcases List.mem_cons.1 hc with rfl | hc
          · exact ⟨List.mem_cons_self, Bool.eq_false_iff.2 hd⟩
          · exact (ih List.mem_cons_self hc).imp_left (List.mem_cons_of_mem _)
        · exact (ih (List.mem_cons_of_mem _ h) hc).imp_left (List.mem_cons_of_mem _)

theorem of_mem_splitWhitespace {s w : Str} (h : w ∈ splitWhitespace s) :
    w ≠ [] ∧ ∀ c ∈ w, isWhitespace c = false :=
  ⟨of_decide_eq_true (List.mem_filter.1 h).2, fun _ hc =>
    (mem_of_mem_splitOnP (List.mem_filter.1 h).1 hc).2⟩

theorem splitWhitespace_word {w : Str} (hne : w ≠ []) (h : ∀ c ∈ w, isWhitespace c = false) :
    splitWhitespace w = [w] := by
  rw [splitWhitespace, List.splitOnP_eq_singleton h, List.filter_cons_of_pos (by simpa using hne)]
  rfl

theorem splitWhitespace_word_cons {w : Str} (hne : w ≠ []) (h : ∀ c ∈ w, isWhitespace c = false)
    {c : Char} (hc : isWhitespace c = true) (s : Str) :
    splitWhitespace (w ++ c :: s) = w :: splitWhitespace s := by
  rw [splitWhitespace, List.splitOnP_append_cons_of_forall_mem h c hc,
    List.filter_cons_of_pos (by simpa using hne), ← splitWhitespace]

end Rust
