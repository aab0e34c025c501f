import Mathlib.Data.List.AList
import Mathlib.Data.List.Nodup
import Mathlib.Data.List.Forall2
import Mathlib.Data.List.Induction
import Mathlib.Tactic.Tauto

/-!
# Keyed tables

A list of records with at most one record a key, newest last.

* `Table.erase`, `Table.put` : remove a key, write a record in place of the one with its key.
* `Table.Keyed` : no key occurs twice; both operations keep it (`keyed_erase`, `keyed_put`).
* `Table.map_erase`, `Table.map_put` : both commute with a change of records that keeps keys.
* `Table.mem_foldl_put` : what a series of writes leaves.
* `Table.forall₂_erase`, `Table.forall₂_put` : tables related record by record stay related.
* `Table.perm_section` : the entries of a table for a part of a composite key.
-/

namespace Table

variable {α β κ : Type*} (f : α → κ)

/-- No key occurs twice. -/
def Keyed (l : List α) : Prop := (l.map f).Nodup

variable {f} in
theorem Keyed.eq_of_key_eq {l : List α} (h : Keyed f l) {a b : α} (ha : a ∈ l) (hb : b ∈ l)
    (hk : f a = f b) : a = b :=
  List.inj_on_of_nodup_map h ha hb hk

variable {f} in
theorem keyed_map {l : List α} (h : Keyed f l) {m : α → α} (hm : ∀ a ∈ l, f (m a) = f a) :
    Keyed f (l.map m) := by
  have hkeys : l.map (f ∘ m) = l.map f := List.map_congr_left hm
  rwa [Keyed, List.map_map, hkeys]

variable {f} in
theorem keyed_concat {l : List α} (h : Keyed f l) {a : α} (ha : ∀ b ∈ l, f b ≠ f a) :
    Keyed f (l ++ [a]) := by
  rw [Keyed, List.map_append, List.map_singleton, List.nodup_append]
  refine ⟨h, List.nodup_singleton _, ?_⟩
  rintro k hk k' hk' rfl
  obtain ⟨b, hb, rfl⟩ := List.mem_map.1 hk
  exact ha b hb (List.mem_singleton.1 hk')

variable [DecidableEq κ]

variable {f} in
theorem Keyed.find?_eq_some_iff {l : List α} (h : Keyed f l) {k : κ} {a : α} :
    l.find? (fun b => f b = k) = some a ↔ a ∈ l ∧ f a = k := by
  constructor
  · intro hfind
    exact ⟨List.mem_of_find?_eq_some hfind, by simpa using List.find?_some hfind⟩
  · rintro ⟨ha, hk⟩
    cases hfind : l.find? (fun b => f b = k) with
    | none => exact absurd (List.find?_eq_none.1 hfind a ha) (by simp [hk])
    | some b =>
      have hb : f b = k := by simpa using List.find?_some hfind
      rw [h.eq_of_key_eq ha (List.mem_of_find?_eq_some hfind) (hk.trans hb.symm)]

variable {f} in
theorem Keyed.filter_key {l : List α} (h : Keyed f l) {a : α} (ha : a ∈ l) :
    l.filter (fun b => f b = f a) = [a] := by
  induction l with
  | nil => cases ha
  | cons b l ih =>
    obtain ⟨hb, hl⟩ := List.nodup_cons.1 h
    rcases List.mem_cons.1 ha with rfl | ha
    · have hnil : l.filter (fun b => f b = f a) = [] := List.filter_eq_nil_iff.2 fun c hc hkey =>
        hb (List.mem_map.2 ⟨c, hc, of_decide_eq_true hkey⟩)
      rw [List.filter_cons, if_pos (decide_eq_true rfl), hnil]
    · rw [List.filter_cons, if_neg, ih hl ha]
      exact fun hkey => hb (List.mem_map.2 ⟨a, ha, (of_decide_eq_true hkey).symm⟩)

variable {f} in
theorem find?_eq_none_iff {l : List α} {k : κ} :
    l.find? (fun b => f b = k) = none ↔ ∀ a ∈ l, f a ≠ k := by
  rw [List.find?_eq_none]
  simp only [decide_eq_true_eq, ne_eq]

/-- Remove the record at `k`. -/
def erase (k : κ) (l : List α) : List α := l.filter fun a => f a ≠ k

/-- Write `a` in place of the record at its key. -/
def put (a : α) (l : List α) : List α := erase f (f a) l ++ [a]

variable {f}

theorem mem_erase {k : κ} {l : List α} {a : α} : a ∈ erase f k l ↔ a ∈ l ∧ f a ≠ k := by
  rw [erase, List.mem_filter, decide_eq_true_iff]

theorem mem_put {a b : α} {l : List α} :
    b ∈ put f a l ↔ b = a ∨ (b ∈ l ∧ f b ≠ f a) := by
  rw [put, List.mem_append, mem_erase, List.mem_singleton, or_comm]

theorem erase_sublist (k : κ) (l : List α) : (erase f k l).Sublist l := List.filter_sublist

theorem keyed_erase {k : κ} {l : List α} (h : Keyed f l) : Keyed f (erase f k l) :=
  h.sublist ((erase_sublist k l).map f)

theorem keyed_put {a : α} {l : List α} (h : Keyed f l) : Keyed f (put f a l) := by
  rw [Keyed, put, List.map_append, List.map_singleton, List.nodup_append]
  refine ⟨keyed_erase h, List.nodup_singleton _, ?_⟩
  rintro k hk k' hk' rfl
  obtain ⟨b, hb, rfl⟩ := List.mem_map.1 hk
  exact (mem_erase.1 hb).2 (List.mem_singleton.1 hk')

theorem erase_of_notMem {k : κ} {l : List α} (h : k ∉ l.map f) : erase f k l = l := by
  rw [erase, List.filter_eq_self]
  intro a ha
  rw [decide_eq_true_iff]
  rintro rfl
  exact h (List.mem_map_of_mem ha)

theorem map_erase {g : β → κ} (m : α → β) (h : ∀ a, g (m a) = f a) (k : κ) (l : List α) :
    (erase f k l).map m = erase g k (l.map m) := by
  rw [erase, erase, List.filter_map]
  congr 1
  refine List.filter_congr fun a _ => ?_
  rw [Function.comp_apply, h]

theorem map_put {g : β → κ} (m : α → β) (h : ∀ a, g (m a) = f a) (a : α) (l : List α) :
    (put f a l).map m = put g (m a) (l.map m) := by
  rw [put, put, List.map_append, List.map_singleton, map_erase m h, h]

theorem mem_foldl_erase {ks : List κ} {l : List α} {a : α} :
    a ∈ ks.foldl (fun l k => erase f k l) l ↔ a ∈ l ∧ f a ∉ ks := by
  induction ks generalizing l with
  | nil => simp
  | cons k ks ih => rw [List.foldl_cons, ih, mem_erase, List.mem_cons, not_or, and_assoc]

theorem keyed_foldl_erase {ks : List κ} {l : List α} (h : Keyed f l) :
    Keyed f (ks.foldl (fun l k => erase f k l) l) := by
  induction ks generalizing l with
  | nil => exact h
  | cons k ks ih => exact ih (keyed_erase h)

theorem keyed_foldl_put {as l : List α} (h : Keyed f l) :
    Keyed f (as.foldl (fun l a => put f a l) l) := by
  induction as generalizing l with
  | nil => exact h
  | cons a as ih => exact ih (keyed_put h)

theorem put_of_notMem {a : α} {l : List α} (h : f a ∉ l.map f) : put f a l = l ++ [a] := by
  rw [put, erase_of_notMem h]

theorem foldl_put_of_nodup {as l : List α} (h : ((l ++ as).map f).Nodup) :
    as.foldl (fun l a => put f a l) l = l ++ as := by
  induction as generalizing l with
  | nil => rw [List.foldl_nil, List.append_nil]
  | cons a as ih =>
    have hnot : f a ∉ l.map f := by
      intro hm
      rw [List.map_append, List.nodup_append] at h
      exact h.2.2 _ hm _ (by simp) rfl
    rw [List.foldl_cons, put_of_notMem hnot, ih (by simpa using h), List.append_assoc,
      List.singleton_append]

/-- What a series of writes leaves: what it does not overwrite, and the last record of each
key it writes. -/
theorem mem_foldl_put {as l : List α} {a : α} : a ∈ as.foldl (fun l a => put f a l) l ↔
    (a ∈ l ∧ f a ∉ as.map f) ∨ a ∈ as.foldl (fun l a => put f a l) [] := by
  induction as using List.reverseRecOn with
  | nil => simp
  | append_singleton as b ih =>
    simp only [List.foldl_append, List.foldl_cons, List.foldl_nil, List.map_append,
      List.map_cons, List.map_nil, mem_put, List.mem_append, List.mem_singleton, not_or]
    rw [ih]
    tauto

theorem mem_map_foldl_put {as l : List α} {k : κ} :
    k ∈ (as.foldl (fun l a => put f a l) l).map f ↔ k ∈ l.map f ∨ k ∈ as.map f := by
  induction as generalizing l with
  | nil => simp
  | cons a as ih =>
    have hput : k ∈ (put f a l).map f ↔ k ∈ l.map f ∨ k = f a := by
      simp only [List.mem_map, mem_put]
      constructor
      · rintro ⟨b, rfl | ⟨hb, -⟩, rfl⟩
        exacts [.inr rfl, .inl ⟨b, hb, rfl⟩]
      · rintro (⟨b, hb, rfl⟩ | rfl)
        · by_cases hk : f b = f a
          · exact ⟨a, .inl rfl, hk.symm⟩
          · exact ⟨b, .inr ⟨hb, hk⟩, rfl⟩
        · exact ⟨a, .inl rfl, rfl⟩
    rw [List.foldl_cons, ih, hput, List.map_cons, List.mem_cons, or_assoc]

theorem map_foldl_erase {g : β → κ} (m : α → β) (h : ∀ a, g (m a) = f a) (ks : List κ)
    (l : List α) : (ks.foldl (fun l k => erase f k l) l).map m =
      ks.foldl (fun l k => erase g k l) (l.map m) := by
  induction ks generalizing l with
  | nil => rfl
  | cons k ks ih => rw [List.foldl_cons, ih, map_erase m h, List.foldl_cons]

theorem map_foldl_put {g : β → κ} (m : α → β) (h : ∀ a, g (m a) = f a) (as l : List α) :
    (as.foldl (fun l a => put f a l) l).map m =
      (as.map m).foldl (fun l b => put g b l) (l.map m) := by
  induction as generalizing l with
  | nil => rfl
  | cons a as ih => rw [List.foldl_cons, ih, map_put m h, List.map_cons, List.foldl_cons]

section Forall₂

variable {g : β → κ} {R : α → β → Prop} {l : List α} {l' : List β}

omit [DecidableEq κ] in
theorem map_eq_of_forall₂ (hR : ∀ a b, R a b → g b = f a) (h : List.Forall₂ R l l') :
    l'.map g = l.map f := by
  induction h with
  | nil => rfl
  | cons hab _ ih => rw [List.map_cons, List.map_cons, hR _ _ hab, ih]

omit [DecidableEq κ] in
theorem exists_right_of_mem (h : List.Forall₂ R l l') {a : α} (ha : a ∈ l) : ∃ b ∈ l', R a b := by
  induction h with
  | nil => cases ha
  | cons hab _ ih =>
    rcases List.mem_cons.1 ha with rfl | ha
    · exact ⟨_, List.mem_cons_self, hab⟩
    · obtain ⟨b, hb, hR⟩ := ih ha
      exact ⟨b, List.mem_cons_of_mem _ hb, hR⟩

omit [DecidableEq κ] in
theorem exists_left_of_mem (h : List.Forall₂ R l l') {b : β} (hb : b ∈ l') : ∃ a ∈ l, R a b := by
  obtain ⟨a, ha, hR⟩ := exists_right_of_mem (R := fun b a => R a b) (List.Forall₂.flip h) hb
  exact ⟨a, ha, hR⟩

theorem forall₂_erase (hR : ∀ a b, R a b → g b = f a) (h : List.Forall₂ R l l') (k : κ) :
    List.Forall₂ R (erase f k l) (erase g k l') := by
  induction h with
  | nil => exact .nil
  | @cons a b l l' hab _ ih =>
    rw [erase, erase, List.filter_cons, List.filter_cons, hR a b hab]
    split_ifs
    · exact .cons hab ih
    · exact ih

theorem forall₂_put (hR : ∀ a b, R a b → g b = f a) (h : List.Forall₂ R l l') {a : α} {b : β}
    (hab : R a b) : List.Forall₂ R (put f a l) (put g b l') := by
  rw [put, put, hR a b hab]
  exact List.rel_append (forall₂_erase hR h _) (.cons hab .nil)

end Forall₂

/-! ### Composite keys -/

section Section

variable {α β κ : Type*} [DecidableEq α] [DecidableEq κ]

/-- The entries of a table whose keys are in the image of `g` are those of a table that has the same
values there. -/
theorem perm_section {t : AList fun _ : κ => β} {l : AList fun _ : α => β} (g : α → κ)
    (hg : Function.Injective g) (h : ∀ i, t.lookup (g i) = l.lookup i) (p : κ → Bool)
    (hp : ∀ k, p k = true ↔ ∃ i, g i = k) :
    ((t.entries.filter fun e => p e.1).map Sigma.snd).Perm (l.entries.map Sigma.snd) := by
  have hsplit : l.entries.map Sigma.snd =
      (l.entries.map fun e => (⟨g e.1, e.2⟩ : Sigma fun _ : κ => β)).map Sigma.snd := by
    rw [List.map_map]
    rfl
  rw [hsplit]
  refine List.Perm.map _ ((List.perm_ext_iff_of_nodup ?_ ?_).2 fun e => ?_)
  · exact t.nodupKeys.nodup.filter _
  · refine (List.nodup_map_iff_inj_on l.nodupKeys.nodup).2 fun e he e' he' heq => ?_
    obtain ⟨hkey, -⟩ := Sigma.mk.inj heq
    exact l.nodupKeys.eq_of_fst_eq he he' (hg hkey)
  · obtain ⟨k, b⟩ := e
    rw [List.mem_filter, ← AList.mem_lookup_iff, List.mem_map, hp]
    constructor
    · rintro ⟨hk, i, rfl⟩
      rw [h] at hk
      exact ⟨⟨i, b⟩, AList.mem_lookup_iff.1 hk, rfl⟩
    · rintro ⟨⟨i, b'⟩, he, heq⟩
      obtain ⟨rfl, hb⟩ := Sigma.mk.inj heq
      cases hb
      refine ⟨?_, i, rfl⟩
      rw [h]
      exact AList.mem_lookup_iff.2 he

end Section

end Table
