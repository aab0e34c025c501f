import Mathlib.Data.List.Basic
import Mathlib.Data.Nat.Init

/-!
# Brackets

Lists in which some entries open a bracket of a kind and some close one.

* `Nested` : every bracket is closed by one of its kind, and what is between is nested again.
* `depth` : how many brackets are open after a list, whatever their kinds.
* `peak` : how many are open at most.
* `KindsAgree` : an entry that closes a bracket, as the depth has it, is of its kind.
* `nested_of_depth` : lists are nested when they come back to depth zero and their kinds agree.
-/

namespace Brackets

variable {α κ : Type*}

/-- What an entry does. -/
inductive Mark (κ : Type*)
  | opens (k : κ)
  | closes (k : κ)
  | other

variable (mark : α → Mark κ)

/-- Every bracket is closed by one of its kind. -/
inductive Nested : List α → Prop
  | nil : Nested []
  | other {a : α} {l : List α} (h : mark a = .other) : Nested l → Nested (a :: l)
  | group {a b : α} {k : κ} {l m : List α} (ha : mark a = .opens k) (hb : mark b = .closes k) :
      Nested l → Nested m → Nested (a :: (l ++ b :: m))

/-- How many brackets are open after the list when `n` were before; none if one is closed that is not
open. -/
def depth : ℕ → List α → Option ℕ
  | n, [] => some n
  | n, a :: l =>
    match mark a with
    | .opens _ => depth (n + 1) l
    | .closes _ => match n with
      | 0 => none
      | n + 1 => depth n l
    | .other => depth n l

/-- How many brackets are open at most when `n` are before the list. -/
def peak : ℕ → List α → ℕ
  | n, [] => n
  | n, a :: l => max n <| match mark a with
    | .opens _ => peak (n + 1) l
    | .closes _ => peak (n - 1) l
    | .other => peak n l

/-- A bracket is closed by one of its kind, where the brackets between the two are counted as
closed. -/
def KindsAgree (l : List α) : Prop :=
  ∀ before a inner b after k k', l = before ++ a :: (inner ++ b :: after) → mark a = .opens k →
    mark b = .closes k' → depth mark 0 inner = some 0 → k = k'

variable {mark}

section Steps

variable {a : α} {k : κ} (l : List α) (n : ℕ)

theorem depth_opens (h : mark a = .opens k) : depth mark n (a :: l) = depth mark (n + 1) l := by
  rw [depth.eq_def]
  simp only [h]

theorem depth_closes (h : mark a = .closes k) :
    depth mark (n + 1) (a :: l) = depth mark n l := by
  rw [depth, h]

theorem depth_closes_zero (h : mark a = .closes k) : depth mark 0 (a :: l) = none := by
  rw [depth, h]

theorem depth_other (h : mark a = .other) : depth mark n (a :: l) = depth mark n l := by
  rw [depth.eq_def]
  simp only [h]

theorem le_peak : n ≤ peak mark n l := by
  cases l with
  | nil => exact Nat.le_refl n
  | cons a l => exact Nat.le_max_left _ _

theorem peak_opens (h : mark a = .opens k) : peak mark n (a :: l) = peak mark (n + 1) l := by
  rw [peak, h]
  exact Nat.max_eq_right (Nat.le_trans (Nat.le_succ n) (le_peak l (n + 1)))

theorem peak_closes (h : mark a = .closes k) :
    peak mark (n + 1) (a :: l) = max (n + 1) (peak mark n l) := by
  rw [peak, h]
  rfl

theorem peak_other (h : mark a = .other) : peak mark n (a :: l) = peak mark n l := by
  rw [peak, h]
  exact Nat.max_eq_right (le_peak l n)

end Steps

/-- A list that closes more than it opens shows it in every depth. -/
theorem depth_add {n m : ℕ} {l : List α} (h : depth mark n l = some m) (c : ℕ) :
    depth mark (n + c) l = some (m + c) := by
  induction l generalizing n with
  | nil =>
    obtain rfl := Option.some.inj h
    rfl
  | cons a l ih =>
    cases ha : mark a with
    | opens k =>
      rw [depth_opens l _ ha] at h ⊢
      rw [Nat.add_right_comm]
      exact ih h
    | closes k =>
      cases n with
      | zero =>
        rw [depth_closes_zero l ha] at h
        cases h
      | succ n =>
        rw [depth_closes l _ ha] at h
        rw [Nat.add_right_comm, depth_closes l _ ha]
        exact ih h
    | other =>
      rw [depth_other l _ ha] at h ⊢
      exact ih h

theorem depth_append (n : ℕ) (l r : List α) :
    depth mark n (l ++ r) = (depth mark n l).bind fun m => depth mark m r := by
  induction l generalizing n with
  | nil => rfl
  | cons a l ih =>
    rw [List.cons_append]
    cases ha : mark a with
    | opens k => rw [depth_opens _ _ ha, depth_opens _ _ ha, ih]
    | closes k =>
      cases n with
      | zero => rw [depth_closes_zero _ ha, depth_closes_zero _ ha, Option.bind_none]
      | succ n => rw [depth_closes _ _ ha, depth_closes _ _ ha, ih]
    | other => rw [depth_other _ _ ha, depth_other _ _ ha, ih]

theorem exists_closing {n : ℕ} {l : List α} (h : depth mark (n + 1) l = some 0) :
    ∃ inner b after k, l = inner ++ b :: after ∧ depth mark 0 inner = some 0 ∧
      mark b = .closes k ∧ depth mark n after = some 0 := by
  induction hlen : l.length using Nat.strong_induction_on generalizing n l with
  | _ len ih =>
    subst hlen
    rcases l with _ | ⟨a, l⟩
    · cases h
    cases ha : mark a with
    | opens k =>
      rw [depth_opens _ _ ha] at h
      -- the bracket that opens here closes first
      obtain ⟨inner, b, after, k', rfl, hinner, hb, hafter⟩ := ih _ (Nat.lt_succ_self _) h rfl
      obtain ⟨inner', b', after', k'', rfl, hinner', hb', hafter'⟩ :=
        ih after.length (by simp only [List.length_cons, List.length_append]; omega) hafter rfl
      refine ⟨a :: (inner ++ b :: inner'), b', after', k'', by simp, ?_, hb', hafter'⟩
      rw [depth_opens _ _ ha, depth_append, depth_add hinner 1, Option.bind_some,
        depth_closes _ _ hb, hinner']
    | closes k =>
      rw [depth_closes _ _ ha] at h
      exact ⟨[], a, l, k, rfl, rfl, ha, h⟩
    | other =>
      rw [depth_other _ _ ha] at h
      obtain ⟨inner, b, after, k, rfl, hinner, hb, hafter⟩ := ih _ (Nat.lt_succ_self _) h rfl
      exact ⟨a :: inner, b, after, k, rfl, by rw [depth_other _ _ ha, hinner], hb, hafter⟩

theorem KindsAgree.of_append {l m r : List α} (h : KindsAgree mark (l ++ m ++ r)) :
    KindsAgree mark m := by
  rintro before a inner b after k k' rfl ha hb hinner
  exact h (l ++ before) a inner b (after ++ r) k k' (by simp) ha hb hinner

theorem nested_of_depth {l : List α} (h : depth mark 0 l = some 0) (hkinds : KindsAgree mark l) :
    Nested mark l := by
  induction hlen : l.length using Nat.strong_induction_on generalizing l with
  | _ len ih =>
    subst hlen
    rcases l with _ | ⟨a, l⟩
    · exact .nil
    cases ha : mark a with
    | opens k =>
      rw [depth_opens _ _ ha] at h
      obtain ⟨inner, b, after, k', rfl, hinner, hb, hafter⟩ := exists_closing h
      obtain rfl := hkinds [] a inner b after k k' rfl ha hb hinner
      have hkinds₁ : KindsAgree mark inner := by
        refine KindsAgree.of_append (l := [a]) (r := b :: after) ?_
        rwa [List.append_assoc]
      have hkinds₂ : KindsAgree mark after := by
        refine KindsAgree.of_append (l := a :: (inner ++ [b])) (r := []) ?_
        simpa using hkinds
      refine .group ha hb (ih _ ?_ hinner hkinds₁ rfl) (ih _ ?_ hafter hkinds₂ rfl) <;>
      · simp only [List.length_cons, List.length_append]
        omega
    | closes k =>
      rw [depth_closes_zero _ ha] at h
      cases h
    | other =>
      rw [depth_other _ _ ha] at h
      have hkinds₁ : KindsAgree mark l := by
        refine KindsAgree.of_append (l := [a]) (r := []) ?_
        simpa using hkinds
      exact .other ha (ih _ (Nat.lt_succ_self _) h hkinds₁ rfl)

theorem Nested.append {l m : List α} (hl : Nested mark l) (hm : Nested mark m) :
    Nested mark (l ++ m) := by
  induction hl with
  | nil => exact hm
  | other h _ ih => exact .other h ih
  | group ha hb hinner _ _ ih =>
    rw [List.cons_append, List.append_assoc, List.cons_append]
    exact .group ha hb hinner ih

theorem nested_of_others {l : List α} (h : ∀ a ∈ l, mark a = .other) : Nested mark l := by
  induction l with
  | nil => exact .nil
  | cons a l ih =>
    rw [List.forall_mem_cons] at h
    exact .other h.1 (ih h.2)

theorem peak_others_append {l m : List α} (h : ∀ a ∈ l, mark a = .other) (n : ℕ) :
    peak mark n (l ++ m) = peak mark n m := by
  induction l with
  | nil => rfl
  | cons a l ih =>
    rw [List.forall_mem_cons] at h
    rw [List.cons_append, peak_other _ n h.1, ih h.2]

theorem Nested.depth {l : List α} (h : Nested mark l) (n : ℕ) : depth mark n l = some n := by
  induction h generalizing n with
  | nil => rfl
  | other h _ ih => rw [depth_other _ _ h, ih]
  | group ha hb _ _ ih₁ ih₂ =>
    rw [depth_opens _ _ ha, depth_append, ih₁, Option.bind_some, depth_closes _ _ hb, ih₂]

/-! ### The open brackets -/

/-- The list leads from some open brackets to others, the innermost first. -/
inductive Run (mark : α → Mark κ) : List κ → List α → List κ → Prop
  | nil (s : List κ) : Run mark s [] s
  | opens {a : α} {k : κ} {s s' : List κ} {l : List α} (h : mark a = .opens k) :
      Run mark (k :: s) l s' → Run mark s (a :: l) s'
  | closes {a : α} {k : κ} {s s' : List κ} {l : List α} (h : mark a = .closes k) :
      Run mark s l s' → Run mark (k :: s) (a :: l) s'
  | other {a : α} {s s' : List κ} {l : List α} (h : mark a = .other) :
      Run mark s l s' → Run mark s (a :: l) s'

theorem Run.append {s s₁ s₂ : List κ} {l r : List α} (h : Run mark s l s₁) (h' : Run mark s₁ r s₂) :
    Run mark s (l ++ r) s₂ := by
  induction h with
  | nil => exact h'
  | opens ha _ ih => exact .opens ha (ih h')
  | closes ha _ ih => exact .closes ha (ih h')
  | other ha _ ih => exact .other ha (ih h')

theorem Run.of_append {s s₂ : List κ} {l r : List α} (h : Run mark s (l ++ r) s₂) :
    ∃ s₁, Run mark s l s₁ ∧ Run mark s₁ r s₂ := by
  induction l generalizing s with
  | nil => exact ⟨s, .nil s, h⟩
  | cons a l ih =>
    cases h with
    | opens ha h =>
      obtain ⟨s₁, h₁, h₂⟩ := ih h
      exact ⟨s₁, .opens ha h₁, h₂⟩
    | closes ha h =>
      obtain ⟨s₁, h₁, h₂⟩ := ih h
      exact ⟨s₁, .closes ha h₁, h₂⟩
    | other ha h =>
      obtain ⟨s₁, h₁, h₂⟩ := ih h
      exact ⟨s₁, .other ha h₁, h₂⟩

theorem Nested.run {l : List α} (h : Nested mark l) (s : List κ) : Run mark s l s := by
  induction h generalizing s with
  | nil => exact .nil s
  | other h _ ih => exact .other h (ih s)
  | group ha hb _ _ ih₁ ih₂ => exact .opens ha ((ih₁ _).append (.closes hb (ih₂ s)))

/-- The brackets below the depth that the list keeps stay as they are. -/
theorem Run.eq_append {x s s' : List κ} {l : List α} {m : ℕ} (h : Run mark (x ++ s) l s')
    (hdepth : Brackets.depth mark x.length l = some m) : ∃ y, s' = y ++ s ∧ y.length = m := by
  induction l generalizing x with
  | nil =>
    generalize hs : x ++ s = t at h
    cases h
    exact ⟨x, hs.symm, Option.some.inj hdepth⟩
  | cons a l ih =>
    generalize hs : x ++ s = t at h
    cases h with
    | @opens _ k _ _ _ ha h =>
      subst hs
      rw [depth_opens _ _ ha] at hdepth
      exact ih (x := k :: x) h hdepth
    | @closes _ k t _ _ ha h =>
      cases x with
      | nil =>
        rw [List.length_nil, depth_closes_zero _ ha] at hdepth
        cases hdepth
      | cons k' x =>
        obtain ⟨-, rfl⟩ := List.cons.inj hs
        rw [List.length_cons, depth_closes _ _ ha] at hdepth
        exact ih h hdepth
    | other ha h =>
      subst hs
      rw [depth_other _ _ ha] at hdepth
      exact ih h hdepth

theorem Nested.kindsAgree {l : List α} (h : Nested mark l) : KindsAgree mark l := by
  rintro before a inner b after k k' rfl ha hb hinner
  obtain ⟨s, -, hrest⟩ := (h.run []).of_append
  cases hrest with
  | opens ha' hrest =>
    rw [ha] at ha'
    cases ha'
    obtain ⟨s', hrun, hclose⟩ := hrest.of_append
    obtain ⟨y, rfl, hy⟩ := Run.eq_append (x := []) hrun hinner
    obtain rfl := List.length_eq_zero_iff.1 hy
    cases hclose with
    | opens hb' => exact absurd (hb.symm.trans hb') nofun
    | closes hb' =>
      rw [hb] at hb'
      cases hb'
      rfl
    | other hb' => exact absurd (hb.symm.trans hb') nofun
  | closes ha' => exact absurd (ha.symm.trans ha') nofun
  | other ha' => exact absurd (ha.symm.trans ha') nofun

theorem Nested.exists_depth {l r : List α} (h : Nested mark (l ++ r)) :
    ∃ m, Brackets.depth mark 0 l = some m := by
  have hall := h.depth 0
  rw [depth_append, Option.bind_eq_some_iff] at hall
  obtain ⟨m, hl, -⟩ := hall
  exact ⟨m, hl⟩

theorem Nested.le_depth {l r : List α} {n m : ℕ} (h : Nested mark (l ++ r))
    (hdepth : Brackets.depth mark n l = some m) : n ≤ m := by
  obtain ⟨k, hk⟩ := h.exists_depth
  have hadd := depth_add hk n
  rw [Nat.zero_add, hdepth, Option.some_inj] at hadd
  omega

theorem Nested.of_append_left {l r : List α} {n : ℕ} (h : Nested mark (l ++ r))
    (hdepth : Brackets.depth mark n l = some n) : Nested mark l := by
  obtain ⟨k, hk⟩ := h.exists_depth
  have hadd := depth_add hk n
  rw [Nat.zero_add, hdepth, Option.some_inj] at hadd
  obtain rfl : k = 0 := by omega
  exact nested_of_depth hk (KindsAgree.of_append (l := []) h.kindsAgree)

end Brackets
