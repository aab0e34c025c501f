import Wkp.Cli.Sync

/-!
# Merged branches

Which branches are in `HEAD` after a sync has merged them.

* `Cli.InHead` : a commit is in the history of `HEAD`.
* `Cli.inHead_of_mergeRef` : one step of the loop merges the commit of the unfinished merge, if there
  is one, and else the commit of the branch.
* `Cli.merged_iff` : every branch that is returned is in `HEAD`, exactly when no merge was
  unfinished at the start or its end does not matter for the first branch.
-/

namespace Wkp

open Rust Git

namespace Cli

variable (T : CharTables) (F : Filters) (V : View)

/-- The commit is in the history of `HEAD`. -/
def InHead (head : Option Commit) (c : Commit) : Prop := ∃ h ∈ head, History.IsAncestor c h

instance (head : Option Commit) (c : Commit) : Decidable (InHead head c) :=
  match head with
  | none => isFalse nofun
  | some h => decidable_of_iff (History.IsAncestor c h) (by simp [InHead])

/-- Git goes about the commits of a merge as the history says. -/
structure Fits (m : Incoming) (r : Repo) : Prop where
  /-- Nothing is to be done when the branch is in `HEAD`. -/
  upToDate : m.kind = .upToDate → InHead r.head m.commit
  /-- `HEAD` is moved forward when it is in the branch. -/
  fastForward : m.kind = .fastForward → ∀ h ∈ r.head, History.IsAncestor h m.commit

/-- Git does so in every merge of the loop. -/
def FitsAll : Repo → List (Incoming × (ℕ → ℕ)) → Prop
  | _, [] => True
  | r, m :: ms => Fits m.1 r ∧ ∀ ref r₁,
      Effect.exec (mergeRef T F V m) r = (.ok ref, r₁) → FitsAll r₁ ms

/-- The commit that a step of the loop merges. -/
def mergedCommit (r : Repo) (m : Incoming) : Commit := r.mergeHead.getD m.commit

/-- The commits that a step of the loop made: `HEAD`, unless it was there before. -/
def made (r r₁ : Repo) (m : Incoming) : List Commit :=
  r₁.head.toList.filter fun c => ¬ InHead r.head c ∧ ¬ History.IsAncestor c (mergedCommit r m)

/-- The commits that the loop makes. -/
def newCommits : Repo → List (Incoming × (ℕ → ℕ)) → List Commit
  | _, [] => []
  | r, m :: ms => match Effect.exec (mergeRef T F V m) r with
    | (.ok _, r₁) => made r r₁ m.1 ++ newCommits r₁ ms
    | (.error _, _) => []

variable {T F V} {r r₁ : Repo}

@[simp] theorem inHead_some {h c : Commit} : InHead (some h) c ↔ History.IsAncestor c h := by
  simp [InHead]

theorem InHead.trans {head : Option Commit} {c d : Commit} (hcd : History.IsAncestor c d)
    (hd : InHead head d) : InHead head c := by
  obtain ⟨h, hh, hd⟩ := hd
  exact ⟨h, hh, hcd.trans hd⟩

theorem inHead_mergeCommit {head : Option Commit} {tree : Files} {theirs c : Commit} :
    InHead (some (mergeCommit head tree theirs)) c ↔ InHead head c ∨
      History.IsAncestor c theirs ∨ c = mergeCommit head tree theirs := by
  rw [inHead_some]
  cases head with
  | none =>
    rw [mergeCommit]
    constructor
    · exact fun h => .inr (.inl h)
    · rintro (⟨h, hh, -⟩ | h | rfl)
      · cases hh
      · exact h
      · exact .refl _
  | some ours =>
    rw [mergeCommit, inHead_some, History.IsAncestor]
    tauto

/-! ### One step -/

/-- The commit that is checked out and that of an unfinished merge stay. -/
def SameHead (r s : Repo) : Prop := s.head = r.head ∧ s.mergeHead = r.mergeHead

theorem keeps_sameHead_stagePath (ignored : Str → Bool) (path : Str) :
    Effect.Keeps (SameHead r) (stagePath F ignored path) := by
  intro s hs
  rcases exec_stagePath F ignored path s with h | ⟨entry, -, h⟩ <;> rw [h] <;> exact hs

theorem keeps_sameHead_resolve (clock : ℕ → ℕ) :
    Effect.Keeps (SameHead r) (resolveModifyDeleteConflicts T F V clock) := by
  have hwrite : ∀ path text, Effect.Keeps (SameHead r) (writeInboxFile path text) := by
    intro path text s hs
    rw [writeInboxFile, Effect.exec_get_bind]
    split_ifs <;> exact hs
  refine Effect.Keeps.get.bind fun s => Effect.Keeps.mapM fun c _ => ?_
  exact Effect.Keeps.get.bind fun s => (keeps_sameHead_stagePath _ _).bind fun _ =>
    (hwrite _ _).bind fun _ => Effect.Keeps.get.bind fun s =>
      (keeps_sameHead_stagePath _ _).bind fun _ => .pure _

theorem exec_resolveAndFinish_eq_ok {clock : ℕ → ℕ} {u : Unit}
    (h : Effect.exec (resolveAndFinish T F V clock) r = (.ok u, r₁)) :
    ∃ pending tree, r.mergeHead = some pending ∧ r₁.mergeHead = none ∧
      r₁.head = some (mergeCommit r.head tree pending) := by
  rw [resolveAndFinish, Effect.exec_bind_eq_ok] at h
  obtain ⟨notes, s, hresolve, h⟩ := h
  have hsame : SameHead r s := by
    have := keeps_sameHead_resolve (T := T) (F := F) (V := V) clock r ⟨rfl, rfl⟩
    rwa [hresolve] at this
  rw [finishMerge, Effect.exec_get_bind] at h
  split_ifs at h
  · cases h
  cases hp : s.mergeHead with
  | none => rw [hp] at h; cases h
  | some pending =>
    rw [hp] at h
    cases h
    exact ⟨pending, s.indexTree, hsame.2 ▸ hp, rfl, by rw [hsame.1]⟩

theorem head_of_mergeRef {m : Incoming × (ℕ → ℕ)} {ref : Str}
    (h : Effect.exec (mergeRef T F V m) r = (.ok ref, r₁)) :
    ref = m.1.ref ∧ r₁.mergeHead = none ∧
      (r.mergeHead = none ∧ m.1.kind = .upToDate ∧ r₁.head = r.head ∨
      r.mergeHead = none ∧ m.1.kind = .fastForward ∧ r₁.head = some m.1.commit ∨
      ∃ tree, r₁.head = some (mergeCommit r.head tree (mergedCommit r m.1))) := by
  rw [mergeRef, Effect.exec_bind_eq_ok] at h
  obtain ⟨clean, s, hmerge, h⟩ := h
  rcases exec_mergeBranch_eq_ok F (mergeDriver T) hmerge with ⟨rfl, hs⟩ | ⟨rfl, hnone, hnone', hkind⟩
  · rw [if_neg Bool.false_ne_true, Effect.exec_bind_eq_ok] at h
    obtain ⟨_, s', hfinish, h⟩ := h
    cases h
    obtain ⟨pending, tree, hpending, hmergeHead, hhead⟩ := exec_resolveAndFinish_eq_ok hfinish
    refine ⟨rfl, hmergeHead, .inr (.inr ⟨tree, ?_⟩)⟩
    rcases hs with rfl | ⟨hnone, hnew, hs⟩
    · -- git did not start the merge: what is finished is the unfinished one
      rw [hhead, mergedCommit, hpending, Option.getD_some]
    · rw [hnew] at hpending
      rw [hhead, hs, mergedCommit, hnone, Option.getD_none, Option.some.inj hpending]
  · cases h
    refine ⟨rfl, hnone', ?_⟩
    rcases hkind with hk | hk | ⟨tree, htree⟩
    · exact .inl ⟨hnone, hk⟩
    · exact .inr (.inl ⟨hnone, hk⟩)
    · exact .inr (.inr ⟨tree, by rw [htree, mergedCommit, hnone, Option.getD_none]⟩)

theorem mem_made {m : Incoming} {c : Commit} : c ∈ made r r₁ m ↔
    r₁.head = some c ∧ ¬ InHead r.head c ∧ ¬ History.IsAncestor c (mergedCommit r m) := by
  rw [made, List.mem_filter, Option.mem_toList, decide_eq_true_iff]

/-- **What a step of the loop brings into `HEAD`**: the commit of the unfinished merge, if there is
one, and else the commit of the branch. -/
theorem inHead_of_mergeRef {m : Incoming × (ℕ → ℕ)} {ref : Str} (hfits : Fits m.1 r)
    (h : Effect.exec (mergeRef T F V m) r = (.ok ref, r₁)) (c : Commit) :
    InHead r₁.head c ↔ InHead r.head c ∨ History.IsAncestor c (mergedCommit r m.1) ∨
      c ∈ made r r₁ m.1 := by
  obtain ⟨-, -, ⟨hnone, hk, hhead⟩ | ⟨hnone, hk, hhead⟩ | ⟨tree, hhead⟩⟩ := head_of_mergeRef h
  · have hmerged : mergedCommit r m.1 = m.1.commit := by rw [mergedCommit, hnone, Option.getD_none]
    rw [hhead]
    refine ⟨.inl, ?_⟩
    rintro (h | h | h)
    · exact h
    · exact (hfits.upToDate hk).trans (hmerged ▸ h)
    · have hc := (mem_made.1 h).1
      rw [hhead] at hc
      exact ⟨c, hc, .refl c⟩
  · have hmerged : mergedCommit r m.1 = m.1.commit := by rw [mergedCommit, hnone, Option.getD_none]
    rw [hhead, inHead_some, hmerged]
    refine ⟨fun h => .inr (.inl h), ?_⟩
    rintro (⟨h, hh, hc⟩ | h | h)
    · exact hc.trans (hfits.fastForward hk h hh)
    · exact h
    · have hc := (mem_made.1 h).1
      rw [hhead] at hc
      exact Option.some.inj hc ▸ .refl _
  · rw [hhead, inHead_mergeCommit]
    constructor
    · rintro (h | h | hc)
      · exact .inl h
      · exact .inr (.inl h)
      · by_cases hold : InHead r.head c ∨ History.IsAncestor c (mergedCommit r m.1)
        · exact hold.imp_right .inl
        · rw [not_or] at hold
          exact .inr (.inr (mem_made.2 ⟨hc ▸ hhead, hold⟩))
    · rintro (h | h | h)
      · exact .inl h
      · exact .inr (.inl h)
      · have hc := (mem_made.1 h).1
        rw [hhead] at hc
        exact .inr (.inr (Option.some.inj hc).symm)

/-! ### The loop -/

theorem exec_mergeRefs_cons_eq_ok {m : Incoming × (ℕ → ℕ)} {refs : List (Incoming × (ℕ → ℕ))}
    {merged : List Str}
    (h : Effect.exec (mergeRefsIntoCurrentBranch T F V (m :: refs)) r = (.ok merged, r₁)) :
    ∃ ref s merged', Effect.exec (mergeRef T F V m) r = (.ok ref, s) ∧
      Effect.exec (mergeRefsIntoCurrentBranch T F V refs) s = (.ok merged', r₁) ∧
      merged = ref :: merged' := by
  obtain ⟨ref, s, merged', hstep, hloop, hmerged⟩ := Effect.exec_mapM_cons_eq_ok.1 h
  exact ⟨ref, s, merged', hstep, hloop, hmerged.symm⟩

/-- **What the loop brings into `HEAD`** when no merge is unfinished: the branches. -/
theorem inHead_of_mergeRefs {refs : List (Incoming × (ℕ → ℕ))} {merged : List Str}
    (hnone : r.mergeHead = none) (hfits : FitsAll T F V r refs)
    (h : Effect.exec (mergeRefsIntoCurrentBranch T F V refs) r = (.ok merged, r₁)) (c : Commit) :
    InHead r₁.head c ↔ InHead r.head c ∨ (∃ m ∈ refs, History.IsAncestor c m.1.commit) ∨
      c ∈ newCommits T F V r refs := by
  induction refs generalizing r merged with
  | nil =>
    cases h
    simp [newCommits]
  | cons m refs ih =>
    obtain ⟨ref, s, merged', hstep, hloop, rfl⟩ := exec_mergeRefs_cons_eq_ok h
    have hmerged : mergedCommit r m.1 = m.1.commit := by rw [mergedCommit, hnone, Option.getD_none]
    rw [ih (head_of_mergeRef hstep).2.1 (hfits.2 _ _ hstep) hloop,
      inHead_of_mergeRef hfits.1 hstep, hmerged, newCommits, hstep]
    simp only [List.mem_append, List.exists_mem_cons_iff, or_assoc, or_left_comm]

/-- What it brings into `HEAD` in any case: the unfinished merge, if there is one, in place of the
first branch. -/
theorem inHead_of_mergeRefs_cons {m : Incoming × (ℕ → ℕ)} {refs : List (Incoming × (ℕ → ℕ))}
    {merged : List Str} (hfits : FitsAll T F V r (m :: refs))
    (h : Effect.exec (mergeRefsIntoCurrentBranch T F V (m :: refs)) r = (.ok merged, r₁))
    (c : Commit) : InHead r₁.head c ↔ InHead r.head c ∨
      History.IsAncestor c (mergedCommit r m.1) ∨
      (∃ n ∈ refs, History.IsAncestor c n.1.commit) ∨ c ∈ newCommits T F V r (m :: refs) := by
  obtain ⟨ref, s, merged', hstep, hloop, rfl⟩ := exec_mergeRefs_cons_eq_ok h
  rw [inHead_of_mergeRefs (head_of_mergeRef hstep).2.1 (hfits.2 _ _ hstep) hloop,
    inHead_of_mergeRef hfits.1 hstep, newCommits, hstep]
  simp only [List.mem_append, or_assoc, or_left_comm]

theorem merged_eq_map {refs : List (Incoming × (ℕ → ℕ))} {merged : List Str}
    (h : Effect.exec (mergeRefsIntoCurrentBranch T F V refs) r = (.ok merged, r₁)) :
    merged = refs.map fun m => m.1.ref := by
  refine (Effect.exec_mapM_invariant (P := fun _ _ => True) (fun _ _ _ _ _ _ _ _ hstep => ?_)
    trivial h).1
  exact ⟨(head_of_mergeRef hstep).1, trivial⟩

/-- Every branch that the loop returned is in `HEAD`. -/
def Merged (refs : List (Incoming × (ℕ → ℕ))) (merged : List Str) (r₁ : Repo) : Prop :=
  ∀ m ∈ refs, m.1.ref ∈ merged → InHead r₁.head m.1.commit

/-- **The branches that a sync returns are in `HEAD`**, exactly when no merge was unfinished at the
start, or the first branch is in `HEAD`, in the unfinished merge, or in another branch all the
same.  A commit that git makes is new: no branch was at it before. -/
theorem merged_iff {refs : List (Incoming × (ℕ → ℕ))} {merged : List Str}
    (hfits : FitsAll T F V r refs) (hnew : ∀ m ∈ refs, m.1.commit ∉ newCommits T F V r refs)
    (h : Effect.exec (mergeRefsIntoCurrentBranch T F V refs) r = (.ok merged, r₁)) :
    Merged refs merged r₁ ↔ ∀ pending ∈ r.mergeHead, ∀ m ∈ refs.head?,
      InHead r.head m.1.commit ∨ History.IsAncestor m.1.commit pending ∨
        ∃ n ∈ refs.tail, History.IsAncestor m.1.commit n.1.commit := by
  have hall : Merged refs merged r₁ ↔ ∀ m ∈ refs, InHead r₁.head m.1.commit := by
    rw [Merged, merged_eq_map h]
    exact forall₂_congr fun m hm => ⟨fun hr => hr (List.mem_map_of_mem hm), fun hr _ => hr⟩
  rw [hall]
  cases refs with
  | nil => simp
  | cons m refs =>
    have hin := inHead_of_mergeRefs_cons hfits h
    have hrest : ∀ n ∈ refs, InHead r₁.head n.1.commit := fun n hn =>
      (hin _).2 (.inr (.inr (.inl ⟨n, hn, .refl _⟩)))
    rw [List.forall_mem_cons, and_iff_left hrest, List.head?_cons, List.tail_cons, hin,
      mergedCommit]
    cases r.mergeHead with
    | none => simp
    | some pending => simp [hnew m List.mem_cons_self]

/-! ### Examples -/

/-- A commit of one document. -/
def exampleVersion (text : String) : Commit :=
  .root (AList.singleton "a.md".toList (.text text.toList)) unsigned

/-- A store in which the merge of another commit is unfinished, or none is. -/
def exampleUnfinished (pending : Option Commit) : Repo where
  head := some (exampleVersion "a")
  index := AList.singleton "a.md".toList (.staged (.text "a".toList))
  worktree := AList.singleton "a.md".toList (.text "a".toList)
  mergeHead := pending

/-- A branch that nothing is known of yet. -/
def exampleBranch : Incoming × (ℕ → ℕ) :=
  (⟨"origin/main".toList, exampleVersion "b", .threeWay, ∅⟩, fun _ => 0)

/-- The merge of the branch. -/
def exampleMerge : Effect Repo Str (List Str) :=
  mergeRefsIntoCurrentBranch CharTables.asciiOnly exampleFilters exampleView [exampleBranch]

theorem merged_iff_exampleUnfinished : ∃ merged, Merged [exampleBranch] merged
    (Effect.exec exampleMerge (exampleUnfinished none)).2 := by
  obtain ⟨merged, h⟩ := Effect.exists_exec_eq_ok (m := exampleMerge) (s := exampleUnfinished none)
    (by decide +kernel)
  have hfits : FitsAll CharTables.asciiOnly exampleFilters exampleView (exampleUnfinished none)
      [exampleBranch] := ⟨⟨nofun, nofun⟩, fun _ _ _ => trivial⟩
  exact ⟨merged, (merged_iff hfits (by decide +kernel) h).2 nofun⟩

/-- With an unfinished merge at the start, the branch is returned but is not in `HEAD`. -/
theorem not_merged_exampleUnfinished : ∃ merged s',
    Effect.exec exampleMerge (exampleUnfinished (some (exampleVersion "c"))) = (.ok merged, s') ∧
      ¬ Merged [exampleBranch] merged s' := by
  obtain ⟨merged, h⟩ := Effect.exists_exec_eq_ok (m := exampleMerge)
    (s := exampleUnfinished (some (exampleVersion "c"))) (by decide +kernel)
  refine ⟨merged, _, h, fun hm => ?_⟩
  have hin := hm exampleBranch List.mem_cons_self (by
    rw [merged_eq_map h]
    exact List.mem_cons_self)
  exact absurd hin (by decide +kernel)

end Cli

end Wkp
