import Wkp.Lib.Str

/-!
# Slices at byte offsets

`&s[a..b]` for the UTF-8 form of a text: it is there only when both offsets are at the end of a
character.

* `dropBytes`, `sliceBytes` : the slices that do not begin with the text; `takeBytes` is the other.
* `takeBytes_eq_some`, `dropBytes_eq_some` : what they are.
* `isCharBoundary` : a character ends at an offset.
-/

namespace Rust

/-- `&s[n..]`; none unless a character ends there. -/
def dropBytes : ℕ → Str → Option Str
  | 0, s => some s
  | _ + 1, [] => none
  | n + 1, c :: s => if c.utf8Size ≤ n + 1 then dropBytes (n + 1 - c.utf8Size) s else none

/-- `&s[a..b]`; none unless a character ends at both. -/
def sliceBytes (a b : ℕ) (s : Str) : Option Str := (takeBytes b s).bind (dropBytes a)

@[simp] theorem byteLength_nil : byteLength [] = 0 := rfl

@[simp] theorem byteLength_cons (c : Char) (s : Str) :
    byteLength (c :: s) = c.utf8Size + byteLength s := by
  rw [byteLength, List.map_cons, List.sum_cons, ← byteLength]

@[simp] theorem byteLength_append (s t : Str) : byteLength (s ++ t) = byteLength s + byteLength t := by
  rw [byteLength, List.map_append, List.sum_append, ← byteLength, ← byteLength]

@[simp] theorem byteLength_reverse (s : Str) : byteLength s.reverse = byteLength s := by
  induction s with
  | nil => rfl
  | cons c s ih =>
    rw [List.reverse_cons, byteLength_append, ih, byteLength_cons, byteLength_cons, byteLength_nil]
    omega

@[simp] theorem takeBytes_zero (s : Str) : takeBytes 0 s = some [] := by
  cases s <;> rfl

@[simp] theorem dropBytes_zero (s : Str) : dropBytes 0 s = some s := by
  cases s <;> rfl

theorem takeBytes_cons {c : Char} {n : ℕ} (h : c.utf8Size ≤ n) (s : Str) :
    takeBytes n (c :: s) = (takeBytes (n - c.utf8Size) s).map (c :: ·) := by
  have hpos := c.utf8Size_pos
  obtain ⟨n, rfl⟩ := Nat.exists_eq_add_of_le' (hpos.trans_le h)
  rw [takeBytes, if_pos h]

theorem dropBytes_cons {c : Char} {n : ℕ} (h : c.utf8Size ≤ n) (s : Str) :
    dropBytes n (c :: s) = dropBytes (n - c.utf8Size) s := by
  have hpos := c.utf8Size_pos
  obtain ⟨n, rfl⟩ := Nat.exists_eq_add_of_le' (hpos.trans_le h)
  rw [dropBytes, if_pos h]

theorem takeBytes_eq_some {n : ℕ} {s t : Str} :
    takeBytes n s = some t ↔ byteLength t = n ∧ t <+: s := by
  -- character by character: the slice takes the whole of one, or would end within it
  induction s generalizing n t with
  | nil =>
    cases n with
    | zero =>
      rw [takeBytes_zero, Option.some_inj, List.prefix_nil]
      refine ⟨?_, fun h => h.2.symm⟩
      rintro rfl
      exact ⟨rfl, rfl⟩
    | succ n =>
      refine ⟨(by cases ·), ?_⟩
      rintro ⟨hlen, hpre⟩
      rw [List.prefix_nil.1 hpre] at hlen
      cases hlen
  | cons c s ih =>
    have hpos := c.utf8Size_pos
    cases n with
    | zero =>
      rw [takeBytes_zero, Option.some_inj]
      refine ⟨?_, ?_⟩
      · rintro rfl
        exact ⟨rfl, List.nil_prefix⟩
      · rintro ⟨hlen, -⟩
        cases t with
        | nil => rfl
        | cons d t =>
          have hd := d.utf8Size_pos
          rw [byteLength_cons] at hlen
          omega
    | succ n =>
      by_cases hc : c.utf8Size ≤ n + 1
      · rw [takeBytes_cons hc, Option.map_eq_some_iff]
        constructor
        · rintro ⟨t, ht, rfl⟩
          obtain ⟨hlen, hpre⟩ := ih.1 ht
          exact ⟨by rw [byteLength_cons]; omega, List.cons_prefix_cons.2 ⟨rfl, hpre⟩⟩
        · rintro ⟨hlen, hpre⟩
          cases t with
          | nil => cases hlen
          | cons d t =>
            obtain ⟨rfl, htail⟩ := List.cons_prefix_cons.1 hpre
            rw [byteLength_cons] at hlen
            exact ⟨t, ih.2 ⟨by omega, htail⟩, rfl⟩
      · rw [takeBytes, if_neg hc]
        refine ⟨(by cases ·), ?_⟩
        rintro ⟨hlen, hpre⟩
        cases t with
        | nil => cases hlen
        | cons d t =>
          obtain ⟨rfl, -⟩ := List.cons_prefix_cons.1 hpre
          rw [byteLength_cons] at hlen
          omega

theorem dropBytes_eq_some {n : ℕ} {s t : Str} :
    dropBytes n s = some t ↔ ∃ p, byteLength p = n ∧ s = p ++ t := by
  -- character by character: the slice leaves the whole of one, or would begin within it
  induction s generalizing n with
  | nil =>
    cases n with
    | zero =>
      rw [dropBytes_zero, Option.some_inj]
      constructor
      · rintro rfl
        exact ⟨[], rfl, rfl⟩
      · rintro ⟨p, -, hp⟩
        exact (List.append_eq_nil_iff.1 hp.symm).2.symm
    | succ n =>
      refine ⟨(by cases ·), ?_⟩
      rintro ⟨p, hlen, hp⟩
      rw [(List.append_eq_nil_iff.1 hp.symm).1] at hlen
      cases hlen
  | cons c s ih =>
    have hpos := c.utf8Size_pos
    cases n with
    | zero =>
      rw [dropBytes_zero, Option.some_inj]
      constructor
      · rintro rfl
        exact ⟨[], rfl, rfl⟩
      · rintro ⟨p, hlen, hp⟩
        cases p with
        | nil => exact hp
        | cons d p =>
          have hd := d.utf8Size_pos
          rw [byteLength_cons] at hlen
          omega
    | succ n =>
      by_cases hc : c.utf8Size ≤ n + 1
      · rw [dropBytes_cons hc, ih]
        constructor
        · rintro ⟨p, hlen, rfl⟩
          exact ⟨c :: p, by rw [byteLength_cons]; omega, rfl⟩
        · rintro ⟨p, hlen, hp⟩
          cases p with
          | nil => cases hlen
          | cons d p =>
            obtain ⟨rfl, rfl⟩ := List.cons.inj hp
            rw [byteLength_cons] at hlen
            exact ⟨p, by omega, rfl⟩
      · rw [dropBytes, if_neg hc]
        refine ⟨(by cases ·), ?_⟩
        rintro ⟨p, hlen, hp⟩
        cases p with
        | nil => cases hlen
        | cons d p =>
          obtain ⟨rfl, -⟩ := List.cons.inj hp
          rw [byteLength_cons] at hlen
          omega

theorem takeBytes_append (s t : Str) : takeBytes (byteLength s) (s ++ t) = some s :=
  takeBytes_eq_some.2 ⟨rfl, List.prefix_append s t⟩

theorem dropBytes_append (s t : Str) : dropBytes (byteLength s) (s ++ t) = some t :=
  dropBytes_eq_some.2 ⟨s, rfl, rfl⟩

/-- `s.is_char_boundary(n)`. -/
def isCharBoundary (s : Str) (n : ℕ) : Bool := (takeBytes n s).isSome

theorem isCharBoundary_iff {s : Str} {n : ℕ} :
    isCharBoundary s n = true ↔ ∃ p t, s = p ++ t ∧ byteLength p = n := by
  rw [isCharBoundary, Option.isSome_iff_exists]
  constructor
  · rintro ⟨p, hp⟩
    obtain ⟨hlen, t, ht⟩ := takeBytes_eq_some.1 hp
    exact ⟨p, t, ht.symm, hlen⟩
  · rintro ⟨p, t, rfl, rfl⟩
    exact ⟨p, takeBytes_append p t⟩

theorem isCharBoundary_append (p t : Str) : isCharBoundary (p ++ t) (byteLength p) = true :=
  isCharBoundary_iff.2 ⟨p, t, rfl, rfl⟩

theorem le_of_isCharBoundary {p t : Str} {c : Char} {n : ℕ}
    (h : isCharBoundary (p ++ c :: t) n = true) (hn : byteLength p < n) :
    byteLength p + c.utf8Size ≤ n := by
  obtain ⟨q, u, heq, rfl⟩ := isCharBoundary_iff.1 h
  rcases List.append_eq_append_iff.1 heq with ⟨x, rfl, hx⟩ | ⟨x, rfl, -⟩
  · cases x with
    | nil => simp at hn
    | cons d x =>
      obtain ⟨rfl, -⟩ := List.cons.inj hx
      rw [byteLength_append, byteLength_cons]
      omega
  · rw [byteLength_append] at hn
    omega

theorem takeBytes_append_left (s t : Str) (n : ℕ) :
    takeBytes (byteLength s + n) (s ++ t) = (takeBytes n t).map (s ++ ·) := by
  induction s with
  | nil => rw [byteLength_nil, Nat.zero_add, List.nil_append]; exact (Option.map_id' ..).symm
  | cons c s ih =>
    have hle : c.utf8Size ≤ byteLength (c :: s) + n := by
      rw [byteLength_cons]
      omega
    have hsub : byteLength (c :: s) + n - c.utf8Size = byteLength s + n := by
      rw [byteLength_cons]
      omega
    rw [List.cons_append, takeBytes_cons hle, hsub, ih, Option.map_map]
    rfl

theorem sliceBytes_append_left (s t : Str) (n : ℕ) :
    sliceBytes (byteLength s) (byteLength s + n) (s ++ t) = takeBytes n t := by
  rw [sliceBytes, takeBytes_append_left]
  cases takeBytes n t with
  | none => rfl
  | some r => exact dropBytes_append s r

theorem sliceBytes_append (s t u : Str) :
    sliceBytes (byteLength s) (byteLength s + byteLength t) (s ++ (t ++ u)) = some t := by
  rw [sliceBytes, ← byteLength_append, ← List.append_assoc, takeBytes_append, Option.bind_some,
    dropBytes_append]

theorem sliceBytes_eq_some {a b : ℕ} {s t : Str} : sliceBytes a b s = some t ↔
    ∃ p u, s = p ++ (t ++ u) ∧ byteLength p = a ∧ a + byteLength t = b := by
  constructor
  · intro h
    obtain ⟨q, hq, ht⟩ := Option.bind_eq_some_iff.1 h
    obtain ⟨hlen, u, rfl⟩ := takeBytes_eq_some.1 hq
    obtain ⟨p, rfl, rfl⟩ := dropBytes_eq_some.1 ht
    exact ⟨p, u, List.append_assoc .., rfl, by rw [← hlen, byteLength_append]⟩
  · rintro ⟨p, u, rfl, rfl, rfl⟩
    exact sliceBytes_append p t u

end Rust
