import Wkp.Lib.Utf8

/-!
# What a lossy text keeps

`to_string_lossy` of bytes that are text, and the characters of one byte in any bytes.

* `toStringLossy_utf8` : text is read as it is.
* `count_toStringLossy` : a character of one byte stands in the text as often as its byte in the
  bytes.
-/

namespace Rust

theorem charWidth_eq (b : UInt8) : charWidth b =
    if b.toNat < 128 then 1 else if 194 ≤ b.toNat ∧ b.toNat ≤ 223 then 2
    else if 224 ≤ b.toNat ∧ b.toNat ≤ 239 then 3 else if 240 ≤ b.toNat ∧ b.toNat ≤ 244 then 4
    else 0 := by
  simp only [charWidth, UInt8.lt_iff_toNat_lt, UInt8.le_iff_toNat_le]
  rfl

theorem isContinuation_iff {b : UInt8} :
    isContinuation b = true ↔ 128 ≤ b.toNat ∧ b.toNat ≤ 191 := by
  simp only [isContinuation, decide_eq_true_eq, UInt8.le_iff_toNat_le]
  rfl

theorem isSecond_iff {b s : UInt8} : isSecond b s = true ↔
    (128 ≤ s.toNat ∧ s.toNat ≤ 191) ∧ (b.toNat = 224 → 160 ≤ s.toNat) ∧
      (b.toNat = 237 → s.toNat ≤ 159) ∧ (b.toNat = 240 → 144 ≤ s.toNat) ∧
      (b.toNat = 244 → s.toNat ≤ 143) := by
  have heq : ∀ n : UInt8, b = n ↔ b.toNat = n.toNat := fun n => UInt8.toNat_inj.symm
  rw [isSecond]
  simp only [heq]
  split_ifs with h₁ h₂ h₃ h₄ <;>
    simp only [isContinuation_iff, decide_eq_true_eq, UInt8.le_iff_toNat_le] <;>
    simp at * <;> omega

/-- The bytes behind the first that belong to its character. -/
def following (b : UInt8) (rest : List UInt8) : List UInt8 :=
  match rest with
  | [] => []
  | second :: rest =>
    if 2 ≤ charWidth b ∧ isSecond b second then
      second :: (rest.take (charWidth b - 2)).takeWhile isContinuation
    else []

/-- The number that the bytes of a character write. -/
def charValue (b : UInt8) (more : List UInt8) : ℕ :=
  more.foldl (fun value b => value * 64 + b.toNat % 64)
    (b.toNat % if charWidth b = 1 then 128 else 2 ^ (7 - charWidth b))

theorem nextChar_eq (b : UInt8) (rest : List UInt8) : nextChar b rest =
    (if (following b rest).length + 1 = charWidth b then Char.ofNat (charValue b (following b rest))
      else Char.ofNat 0xFFFD, (following b rest).length) := by
  have hunfold : nextChar b rest = if (following b rest).length + 1 = charWidth b then
      (Char.ofNat (charValue b (following b rest)), (following b rest).length)
      else (Char.ofNat 0xFFFD, (following b rest).length) := by
    cases rest <;> rfl
  rw [hunfold]
  split_ifs <;> rfl

theorem following_isPrefix (b : UInt8) (rest : List UInt8) : following b rest <+: rest := by
  rcases rest with _ | ⟨second, rest⟩
  · exact List.prefix_rfl
  · rw [following]
    split_ifs
    · exact List.cons_prefix_cons.2 ⟨rfl, (List.takeWhile_prefix _).trans (List.take_prefix _ _)⟩
    · exact List.nil_prefix

theorem le_of_mem_following {b x : UInt8} {rest : List UInt8} (h : x ∈ following b rest) :
    128 ≤ x.toNat := by
  rcases rest with _ | ⟨second, rest⟩
  · cases h
  · rw [following] at h
    split_ifs at h with hsecond
    · rcases List.mem_cons.1 h with rfl | h
      · exact (isSecond_iff.1 hsecond.2).1.1
      · exact (isContinuation_iff.1 (List.mem_takeWhile_imp h)).1
    · cases h

theorem charWidth_cases {b : UInt8} (h : 2 ≤ charWidth b) :
    charWidth b = 2 ∧ 194 ≤ b.toNat ∧ b.toNat ≤ 223 ∨
      charWidth b = 3 ∧ 224 ≤ b.toNat ∧ b.toNat ≤ 239 ∨
      charWidth b = 4 ∧ 240 ≤ b.toNat ∧ b.toNat ≤ 244 := by
  rw [charWidth_eq] at h ⊢
  split_ifs at h ⊢ <;> omega

theorem le_charValue {b : UInt8} {rest : List UInt8} (hwidth : 2 ≤ charWidth b)
    (hlen : (following b rest).length + 1 = charWidth b) :
    128 ≤ charValue b (following b rest) := by
  rcases rest with _ | ⟨s, rest⟩
  · rw [following, List.length_nil] at hlen
    omega
  rw [following] at hlen ⊢
  split_ifs at hlen ⊢ with hsecond
  · obtain ⟨hs, he0, -, hf0, -⟩ := isSecond_iff.1 hsecond.2
    generalize (rest.take (charWidth b - 2)).takeWhile isContinuation = more at hlen ⊢
    rw [List.length_cons] at hlen
    rw [charValue, List.foldl_cons]
    rcases charWidth_cases hwidth with ⟨hw, hb⟩ | ⟨hw, hb⟩ | ⟨hw, hb⟩
    · obtain rfl := List.length_eq_zero_iff.1 (show more.length = 0 by omega)
      simp only [hw, List.foldl_nil]
      norm_num
      omega
    · obtain ⟨x, rfl⟩ := List.length_eq_one_iff.1 (show more.length = 1 by omega)
      simp only [hw, List.foldl_cons, List.foldl_nil]
      norm_num
      omega
    · obtain ⟨x, y, rfl⟩ := List.length_eq_two.1 (show more.length = 2 by omega)
      simp only [hw, List.foldl_cons, List.foldl_nil]
      norm_num
      omega
  · rw [List.length_nil] at hlen
    omega

theorem charWidth_eq_one_iff {b : UInt8} : charWidth b = 1 ↔ b.toNat < 128 := by
  rw [charWidth_eq]
  split_ifs <;> simp <;> omega

theorem following_of_ascii {b : UInt8} (h : b.toNat < 128) (rest : List UInt8) :
    following b rest = [] := by
  have hw := charWidth_eq_one_iff.2 h
  rcases rest with _ | ⟨s, rest⟩
  · rfl
  · rw [following, hw, if_neg fun h => absurd h.1 (by decide)]

theorem toNat_charOfNat (n : ℕ) : (Char.ofNat n).toNat = if n.isValidChar then n else 0 := by
  by_cases h : n.isValidChar
  · rw [Char.ofNat, dif_pos h, if_pos h]
    exact UInt32.toNat_ofNatLT ..
  · rw [Char.ofNat, dif_neg h, if_neg h]
    rfl

theorem nextChar_fst_eq_iff {b : UInt8} {rest : List UInt8} {d : Char} (hd : d.toNat < 128)
    (hd0 : 0 < d.toNat) : (nextChar b rest).1 = d ↔ b.toNat = d.toNat := by
  rw [nextChar_eq]
  by_cases hb : b.toNat < 128
  · have hvalid : b.toNat.isValidChar := .inl (by omega)
    rw [following_of_ascii hb, charWidth_eq_one_iff.2 hb, List.length_nil, if_pos rfl, charValue,
      List.foldl_nil, charWidth_eq_one_iff.2 hb, if_pos rfl, Nat.mod_eq_of_lt hb]
    constructor
    · rintro rfl
      rw [toNat_charOfNat, if_pos hvalid]
    · intro h
      rw [h, Char.ofNat_toNat]
  · refine iff_of_false ?_ (by omega)
    split_ifs with hlen
    · have hone := mt charWidth_eq_one_iff.1 hb
      have hvalue := le_charValue (by omega) hlen
      rintro rfl
      rw [toNat_charOfNat] at hd hd0
      split_ifs at hd hd0 <;> omega
    · intro h
      have hmark : (Char.ofNat 0xFFFD).toNat = d.toNat := congrArg Char.toNat h
      rw [← hmark] at hd
      exact absurd hd (by decide)

theorem toStringLossyLoop_length (l rest : List UInt8) :
    toStringLossyLoop (l ++ rest) l.length = toStringLossyLoop rest 0 := by
  induction l with
  | nil => rfl
  | cons b l ih => rw [List.cons_append, List.length_cons, toStringLossyLoop, ih]

theorem toStringLossyLoop_cons (b : UInt8) (rest : List UInt8) :
    toStringLossyLoop (b :: rest) 0 = (nextChar b rest).1 ::
      toStringLossyLoop (rest.drop (following b rest).length) 0 := by
  obtain ⟨tail, htail⟩ := following_isPrefix b rest
  rw [toStringLossyLoop, nextChar_eq]
  dsimp only
  generalize following b rest = l at htail ⊢
  rw [← htail, toStringLossyLoop_length, List.drop_left]

/-- **A character of one byte** stands in the text as often as its byte in the bytes. -/
theorem count_toStringLossy {b : UInt8} {d : Char} (hd : d.toNat < 128) (hd0 : 0 < d.toNat)
    (hb : b.toNat = d.toNat) (bytes : List UInt8) :
    (toStringLossy bytes).count d = bytes.count b := by
  rw [toStringLossy]
  induction hlen : bytes.length using Nat.strong_induction_on generalizing bytes with
  | _ n ih =>
    subst hlen
    rcases bytes with _ | ⟨x, rest⟩
    · rfl
    obtain ⟨tail, htail⟩ := following_isPrefix x rest
    have hskip : rest.count b = tail.count b := by
      have hnone : b ∉ following x rest := fun hmem => by
        have := le_of_mem_following hmem
        omega
      rw [← htail, List.count_append, List.count_eq_zero.2 hnone, Nat.zero_add]
    have hshort : tail.length < (x :: rest).length := by
      rw [← htail, List.length_cons, List.length_append]
      omega
    have hfirst : (nextChar x rest).1 = d ↔ x = b := by
      rw [nextChar_fst_eq_iff hd hd0, ← hb, UInt8.toNat_inj]
    have hdrop : rest.drop (following x rest).length = tail := by
      generalize following x rest = l at htail ⊢
      rw [← htail, List.drop_left]
    rw [toStringLossyLoop_cons, hdrop, List.count_cons, List.count_cons, ih _ hshort tail rfl, hskip]
    simp only [beq_iff_eq, hfirst]

/-! ### Text -/

theorem length_utf8EncodeChar (c : Char) : (String.utf8EncodeChar c).length = c.utf8Size :=
  String.length_utf8EncodeChar c

@[simp] theorem length_utf8 (s : Str) : (utf8 s).length = (s.map Char.utf8Size).sum := by
  rw [utf8, List.length_flatMap]
  simp only [length_utf8EncodeChar]

theorem take_utf8_of_ascii {s : Str} (h : ∀ c ∈ s, c.toNat < 128) (n : ℕ) :
    (utf8 s).take n = utf8 (s.take n) := by
  induction s generalizing n with
  | nil => rw [utf8_nil, List.take_nil, List.take_nil, utf8_nil]
  | cons c s ih =>
    have hc : c.toNat < 128 := h c List.mem_cons_self
    have hsize : c.utf8Size = 1 := Char.utf8Size_eq_one_iff.2 (by
      rw [UInt32.le_iff_toNat_le]
      exact Nat.le_of_lt_succ hc)
    have hone : ∃ b, String.utf8EncodeChar c = [b] :=
      List.length_eq_one_iff.1 ((length_utf8EncodeChar c).trans hsize)
    obtain ⟨b, hb⟩ := hone
    have hcons : ∀ t : Str, utf8 (c :: t) = b :: utf8 t := fun t => by
      rw [utf8, List.flatMap_cons, hb]
      rfl
    cases n with
    | zero => rw [List.take_zero, List.take_zero, utf8_nil]
    | succ n =>
      rw [hcons, List.take_succ_cons, List.take_succ_cons, hcons,
        ih (fun c' hc' => h c' (List.mem_cons_of_mem _ hc'))]

theorem toNat_of_mem_utf8EncodeChar {c : Char} {b : UInt8} (h : b ∈ String.utf8EncodeChar c)
    (hb : b.toNat < 128) : b.toNat = c.toNat := by
  have hbyte : ∀ n, n < 256 → (UInt8.ofNat n).toNat = n := fun n hn => by
    rw [UInt8.toNat_ofNat', Nat.mod_eq_of_lt hn]
  rw [String.utf8EncodeChar] at h
  split_ifs at h with h₁ <;> simp only [List.mem_cons, List.not_mem_nil, or_false] at h
  · rw [h, hbyte _ (by omega)]
    rfl
  · rcases h with rfl | rfl <;> rw [hbyte _ (by omega)] at hb <;> omega
  · rcases h with rfl | rfl | rfl <;> rw [hbyte _ (by omega)] at hb <;> omega
  · rcases h with rfl | rfl | rfl | rfl <;> rw [hbyte _ (by omega)] at hb <;> omega

theorem utf8EncodeChar_ofNat {b : UInt8} (h : b.toNat < 128) :
    String.utf8EncodeChar (Char.ofNat b.toNat) = [b] := by
  have hvalid : b.toNat.isValidChar := .inl (by omega)
  have hval : (Char.ofNat b.toNat).val.toNat = b.toNat := by
    have := toNat_charOfNat b.toNat
    rwa [if_pos hvalid] at this
  rw [String.utf8EncodeChar, if_pos (by omega), hval]
  simp

theorem nextChar_of_following {b s : UInt8} {m rest : List UInt8} {c : Char}
    (hw : charWidth b = m.length + 2) (hs : isSecond b s = true)
    (hm : ∀ x ∈ m, isContinuation x = true)
    (hvalue : Char.ofNat (charValue b (s :: m)) = c) :
    nextChar b (s :: m ++ rest) = (c, (s :: m).length) := by
  have hfollowing : following b (s :: (m ++ rest)) = s :: m := by
    have htake : (m ++ rest).take (charWidth b - 2) = m := by
      rw [hw, Nat.add_sub_cancel, List.take_left]
    rw [following, if_pos ⟨by omega, hs⟩, htake, List.takeWhile_eq_self_iff.2 hm]
  rw [List.cons_append, nextChar_eq, hfollowing, if_pos (by rw [hw, List.length_cons]), hvalue]

theorem nextChar_utf8EncodeChar (c : Char) (rest : List UInt8) :
    ∃ b tail, String.utf8EncodeChar c = b :: tail ∧ nextChar b (tail ++ rest) = (c, tail.length) := by
  have hbyte : ∀ n, n < 256 → (UInt8.ofNat n).toNat = n := fun n hn => by
    rw [UInt8.toNat_ofNat', Nat.mod_eq_of_lt hn]
  have hc : ∀ n, n = c.val.toNat → Char.ofNat n = c := by
    rintro _ rfl
    exact Char.ofNat_toNat c
  have hvalid : c.val.toNat < 0xD800 ∨ 0xDFFF < c.val.toNat ∧ c.val.toNat < 0x110000 := c.valid
  rw [String.utf8EncodeChar]
  generalize c.val.toNat = v at hvalid hc ⊢
  -- the byte that continues a character
  have hcont : ∀ n, (UInt8.ofNat (n % 64 + 128)).toNat = n % 64 + 128 :=
    fun n => hbyte _ (by omega)
  have hcontinuation : ∀ n, isContinuation (UInt8.ofNat (n % 64 + 128)) = true := fun n => by
    rw [isContinuation_iff, hcont]
    omega
  split_ifs with h₁ h₂ h₃
  · refine ⟨_, [], rfl, ?_⟩
    have hb := hbyte v (by omega)
    have hfollowing : following (UInt8.ofNat v) ([] ++ rest) = [] :=
      following_of_ascii (by omega) _
    have hw : charWidth (UInt8.ofNat v) = 1 := charWidth_eq_one_iff.2 (by omega)
    rw [nextChar_eq, hfollowing, hw, List.length_nil, if_pos rfl, hc _ ?_]
    rw [charValue, hw, List.foldl_nil, if_pos rfl, hb]
    omega
  · have hb := hbyte (v / 64 % 32 + 192) (by omega)
    have hw : charWidth (UInt8.ofNat (v / 64 % 32 + 192)) = 2 := by
      rw [charWidth_eq, hb]
      split_ifs <;> omega
    refine ⟨_, _, rfl, nextChar_of_following (m := []) hw ?_ nofun (hc _ ?_)⟩
    · rw [isSecond_iff, hb, hcont]
      omega
    · rw [charValue, hw, hb]
      simp only [List.foldl_cons, List.foldl_nil, hcont]
      norm_num
      omega
  · have hb := hbyte (v / 4096 % 16 + 224) (by omega)
    have hw : charWidth (UInt8.ofNat (v / 4096 % 16 + 224)) = 3 := by
      rw [charWidth_eq, hb]
      split_ifs <;> omega
    refine ⟨_, _, rfl, nextChar_of_following (m := [_]) hw ?_ ?_ (hc _ ?_)⟩
    · rw [isSecond_iff, hb, hcont]
      omega
    · exact List.forall_mem_singleton.2 (hcontinuation v)
    · rw [charValue, hw, hb]
      simp only [List.foldl_cons, List.foldl_nil, hcont]
      norm_num
      omega
  · have hb := hbyte (v / 262144 % 8 + 240) (by omega)
    have hw : charWidth (UInt8.ofNat (v / 262144 % 8 + 240)) = 4 := by
      rw [charWidth_eq, hb]
      split_ifs <;> omega
    refine ⟨_, _, rfl, nextChar_of_following (m := [_, _]) hw ?_ ?_ (hc _ ?_)⟩
    · rw [isSecond_iff, hb, hcont]
      omega
    · exact List.forall_mem_cons.2 ⟨hcontinuation _, List.forall_mem_singleton.2 (hcontinuation v)⟩
    · rw [charValue, hw, hb]
      simp only [List.foldl_cons, List.foldl_nil, hcont]
      norm_num
      omega

theorem toStringLossy_utf8_append (s : Str) (rest : List UInt8) :
    toStringLossy (utf8 s ++ rest) = s ++ toStringLossy rest := by
  induction s with
  | nil => rfl
  | cons c s ih =>
    obtain ⟨b, tail, hc, hnext⟩ := nextChar_utf8EncodeChar c (utf8 s ++ rest)
    have hbytes : utf8 (c :: s) ++ rest = b :: (tail ++ (utf8 s ++ rest)) := by
      rw [utf8, List.flatMap_cons, ← utf8, hc, List.append_assoc, List.cons_append]
    rw [hbytes, toStringLossy, toStringLossyLoop, hnext, toStringLossyLoop_length, List.cons_append,
      ← ih]
    rfl

/-- **Text is read as it is.** -/
theorem toStringLossy_utf8 (s : Str) : toStringLossy (utf8 s) = s := by
  have h := toStringLossy_utf8_append s []
  rwa [List.append_nil, show toStringLossy [] = [] from rfl, List.append_nil] at h

end Rust
