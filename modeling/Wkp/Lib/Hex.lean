import Wkp.Lib.Bytes

/-!
# Numbers in texts

`from_str_radix(s, 16)` and `from_str(s)` of the unsigned integers.  Both take a sign: a text of a
fixed length need not be all digits.

* `fromStrRadix16`, `fromStr` : the parsers, for the integers of any number of bits.
* `fromStrRadix16_of_digits`, `digits_of_fromStrRadix16` : which texts it takes.
-/

namespace Rust

/-- `char::to_digit(16)`. -/
def toDigit16 (c : Char) : Option ℕ :=
  if '0' ≤ c ∧ c ≤ '9' then some (c.toNat - '0'.toNat)
  else if 'a' ≤ c ∧ c ≤ 'f' then some (c.toNat - 'a'.toNat + 10)
  else if 'A' ≤ c ∧ c ≤ 'F' then some (c.toNat - 'A'.toNat + 10)
  else none

/-- A hexadecimal digit. -/
def isHexDigit (c : Char) : Bool := (toDigit16 c).isSome

/-- The number that the digits of a text write; anything else in it counts as a zero. -/
def hexNumber (s : Str) : ℕ := s.foldl (fun n c => n * 16 + (toDigit16 c).getD 0) 0

/-- `from_str_radix(s, 16)` of the unsigned integers of so many bits. -/
def fromStrRadix16 (bits : ℕ) (s : Str) : Option ℕ :=
  let digits := (stripPrefix s ['+']).getD s
  if digits ≠ [] ∧ digits.all isHexDigit = true ∧ hexNumber digits < 2 ^ bits then
    some (hexNumber digits)
  else none

/-- The number that decimal digits write. -/
def decimalNumber (s : Str) : ℕ := s.foldl (fun n c => n * 10 + (c.toNat - '0'.toNat)) 0

/-- `from_str(s)` of the unsigned integers of so many bits. -/
def fromStr (bits : ℕ) (s : Str) : Option ℕ :=
  let digits := (stripPrefix s ['+']).getD s
  if digits ≠ [] ∧ digits.all Char.isDigit = true ∧ decimalNumber digits < 2 ^ bits then
    some (decimalNumber digits)
  else none

theorem toDigit16_eq_some {c : Char} {d : ℕ} (h : toDigit16 c = some d) : d < 16 ∧ c.toNat < 128 := by
  have hle : ∀ {a b : Char}, a ≤ b → a.toNat ≤ b.toNat := fun {a b} hab => hab
  rw [toDigit16] at h
  split_ifs at h with h0 ha hA
  all_goals
    obtain rfl := Option.some.inj h
  · have := hle h0.1
    have := hle h0.2
    simp at *
    omega
  · have := hle ha.1
    have := hle ha.2
    simp at *
    omega
  · have := hle hA.1
    have := hle hA.2
    simp at *
    omega

theorem getD_toDigit16_lt (c : Char) : (toDigit16 c).getD 0 < 16 := by
  cases h : toDigit16 c with
  | none => decide
  | some d => exact (toDigit16_eq_some h).1

theorem utf8Size_of_isHexDigit {c : Char} (h : isHexDigit c = true) : c.utf8Size = 1 := by
  obtain ⟨d, hd⟩ := Option.isSome_iff_exists.1 h
  exact Char.utf8Size_eq_one_iff.2 (UInt32.le_iff_toNat_le.2 (Nat.le_of_lt_succ
    (toDigit16_eq_some hd).2))

theorem hexNumber_concat (s : Str) (c : Char) :
    hexNumber (s ++ [c]) = hexNumber s * 16 + (toDigit16 c).getD 0 := by
  rw [hexNumber, List.foldl_append, List.foldl_cons, List.foldl_nil, ← hexNumber]

theorem hexNumber_lt (s : Str) : hexNumber s < 16 ^ s.length := by
  induction s using List.reverseRecOn with
  | nil => decide
  | append_singleton s c ih =>
    have hc := getD_toDigit16_lt c
    rw [hexNumber_concat, List.length_append, List.length_singleton, pow_succ]
    omega

@[simp] theorem hexNumber_plus (s : Str) : hexNumber ('+' :: s) = hexNumber s := rfl

theorem fromStrRadix16_of_digits {bits : ℕ} {s : Str} (hne : s ≠ [])
    (hs : ∀ c ∈ s, isHexDigit c = true) (hbits : 16 ^ s.length ≤ 2 ^ bits) :
    fromStrRadix16 bits s = some (hexNumber s) ∧
      fromStrRadix16 bits ('+' :: s) = some (hexNumber s) := by
  have hall : s ≠ [] ∧ s.all isHexDigit = true ∧ hexNumber s < 2 ^ bits :=
    ⟨hne, List.all_eq_true.2 hs, (hexNumber_lt s).trans_le hbits⟩
  constructor
  · have hstrip : stripPrefix s ['+'] = none := by
      cases hplus : stripPrefix s ['+'] with
      | none => rfl
      | some r =>
        have := hs '+' (by rw [stripPrefix_eq_some_iff.1 hplus]; exact List.mem_cons_self)
        exact absurd this (by decide)
    rw [fromStrRadix16, hstrip, Option.getD_none, if_pos hall]
  · have hstrip : stripPrefix ('+' :: s) ['+'] = some s := stripPrefix_eq_some_iff.2 rfl
    rw [fromStrRadix16, hstrip, Option.getD_some, if_pos hall]

/-- A text that reads as a number is digits, but for a sign in front. -/
theorem digits_of_fromStrRadix16 {bits n : ℕ} {s : Str} (h : fromStrRadix16 bits s = some n) :
    ∃ t, t ≠ [] ∧ (∀ c ∈ t, isHexDigit c = true) ∧ (s = t ∨ s = '+' :: t) ∧ n = hexNumber t := by
  rw [fromStrRadix16] at h
  split_ifs at h with hdigits
  refine ⟨_, hdigits.1, List.all_eq_true.1 hdigits.2.1, ?_, (Option.some.inj h).symm⟩
  cases hplus : stripPrefix s ['+'] with
  | none => exact .inl rfl
  | some t => exact .inr (stripPrefix_eq_some_iff.1 hplus)

end Rust
