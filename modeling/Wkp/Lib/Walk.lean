import Mathlib.Order.Nat

/-!
# Walks in a relation

* `Walk.Of` : a walk of a given length from a start.
* `Walk.Within` : a walk of at most a given length.
* `Walk.Dist` : the length of a shortest walk.
* `Walk.within_of_agree` : relations that agree on their live points, self-loops aside, reach the
  same live points within every length.
-/

namespace Walk

variable {α : Type*}

/-- `Of R s n t` : a walk of length `n` along `R` leads from `s` to `t`. -/
def Of (R : α → α → Prop) (s : α) : ℕ → α → Prop
  | 0, t => t = s
  | n + 1, t => ∃ q, Of R s n q ∧ R q t

/-- `Within R s n t` : a walk of length at most `n` leads from `s` to `t`. -/
def Within (R : α → α → Prop) (s : α) (n : ℕ) (t : α) : Prop := ∃ d ≤ n, Of R s d t

/-- `Dist R s n t` : a shortest walk from `s` to `t` has length `n`. -/
def Dist (R : α → α → Prop) (s : α) (n : ℕ) (t : α) : Prop := Of R s n t ∧ ∀ k < n, ¬ Of R s k t

variable {R S : α → α → Prop} {s t : α} {n : ℕ}

theorem Within.mono {m : ℕ} (h : Within R s n t) (hm : n ≤ m) : Within R s m t := by
  obtain ⟨d, hd, hw⟩ := h
  exact ⟨d, hd.trans hm, hw⟩

theorem Within.step {q : α} (h : Within R s n q) (hR : R q t) : Within R s (n + 1) t := by
  obtain ⟨d, hd, hw⟩ := h
  exact ⟨d + 1, Nat.succ_le_succ hd, q, hw, hR⟩

/-- The distance is the first length within which there is a walk. -/
theorem dist_iff_within : Dist R s n t ↔ Within R s n t ∧ ∀ k < n, ¬ Within R s k t := by
  constructor
  · rintro ⟨hw, hmin⟩
    refine ⟨⟨n, le_rfl, hw⟩, fun k hk hwithin => ?_⟩
    obtain ⟨d, hd, hwd⟩ := hwithin
    exact hmin d (hd.trans_lt hk) hwd
  · rintro ⟨⟨d, hd, hw⟩, hmin⟩
    rcases hd.lt_or_eq with hlt | rfl
    · exact absurd ⟨d, le_rfl, hw⟩ (hmin d hlt)
    · exact ⟨hw, fun k hk hwk => hmin k hk ⟨k, le_rfl, hwk⟩⟩

theorem Dist.pos (h : Dist R s n t) (hne : t ≠ s) : 0 < n := by
  rcases Nat.eq_zero_or_pos n with rfl | hpos
  · exact absurd h.1 hne
  · exact hpos

theorem within_one_iff (hne : t ≠ s) : Within R s 1 t ↔ R s t := by
  constructor
  · rintro ⟨d, hd, hw⟩
    match d, hd with
    | 0, _ => exact absurd hw hne
    | 1, _ =>
      obtain ⟨q, rfl, hR⟩ := hw
      exact hR
  · intro hR
    exact ⟨1, le_rfl, s, rfl, hR⟩

/-- Steps leave live points only, and every step of `R` between distinct live points is a step of
`S`: then `S` reaches every live point that `R` reaches, no later. -/
theorem within_of_agree {live : α → Prop} (hsrc : ∀ q t, R q t → live q)
    (hsub : ∀ q t, live q → live t → q ≠ t → R q t → S q t) {d : ℕ} (ht : live t)
    (h : Of R s d t) : Within S s d t := by
  induction d generalizing t with
  | zero => exact ⟨0, le_rfl, h⟩
  | succ d ih =>
    obtain ⟨q, hw, hR⟩ := h
    have hq := hsrc q t hR
    by_cases hqt : q = t
    · subst hqt
      exact (ih hq hw).mono d.le_succ
    · exact (ih hq hw).step (hsub q t hq ht hqt hR)

end Walk
