import Wkp.Git.Branches

/-!
# Commits to the branch of a device

* `Git.Preserves` : a commit to the branch of the device leaves the working state as it was.
* `Git.Undisturbed` : the two checkouts around the commit do not touch the files.
* `Git.commitToDeviceBranch_preserves_iff` : a commit that succeeds preserves the working state
  exactly when it is undisturbed.
-/

namespace Wkp

open Rust

namespace Git

variable {H : Host} {ignored : Repo → Str → Bool}

/-! ### What a checkout leaves -/

namespace Repo

variable {F : Filters} {r : Repo} {new : Files} {commit : Commit}

theorem mem_written {p : Str} : p ∈ r.written new ↔ r.writesAt new p = true := by
  rw [written, List.mem_filter]
  refine ⟨And.right, fun h => ⟨?_, h⟩⟩
  rw [List.mem_append, ← AList.mem_keys, ← AList.mem_keys]
  by_contra hp
  rw [not_or, ← AList.lookup_eq_none, ← AList.lookup_eq_none] at hp
  rw [writesAt, hp.1, hp.2] at h
  cases h

theorem writesAt_iff {p : Str} : r.writesAt new p = true ↔
    r.headTree.lookup p ≠ new.lookup p ∧ r.stagedAt p ≠ new.lookup p := by
  rw [writesAt, Bool.and_eq_true, decide_eq_true_iff, decide_eq_true_iff]

theorem stagedAt_switched (p : Str) : (r.switched F commit).stagedAt p =
    if r.writesAt commit.tree p then commit.tree.lookup p else r.stagedAt p := by
  rw [stagedAt, switched]
  dsimp only
  rw [lookup_setAll]
  by_cases h : r.writesAt commit.tree p = true
  · rw [if_pos (mem_written.2 h), if_pos h]
    cases commit.tree.lookup p <;> rfl
  · rw [if_neg (mt mem_written.1 h), if_neg h]
    rfl

theorem lookup_worktree_switched (p : Str) : (r.switched F commit).worktree.lookup p =
    if r.writesAt commit.tree p then (commit.tree.lookup p).map (F.smudge p)
    else r.worktree.lookup p := by
  rw [switched]
  dsimp only
  rw [lookup_setAll]
  by_cases h : r.writesAt commit.tree p = true
  · rw [if_pos (mem_written.2 h), if_pos h]
  · rw [if_neg (mt mem_written.1 h), if_neg h]

theorem worktree_switched_of_tree_eq (h : commit.tree = r.headTree) :
    (r.switched F commit).worktree = r.worktree := by
  have hnone : r.written commit.tree = [] := by
    refine List.filter_eq_nil_iff.2 fun p _ => ?_
    rw [writesAt_iff, h]
    exact fun hp => hp.1 rfl
  rw [switched]
  dsimp only
  rw [hnone]
  rfl

end Repo

theorem exec_checkout_eq_ok {target : Target} {s s' : Branches} {u : Unit}
    (h : Effect.exec (checkout H ignored target) s = (.ok u, s')) :
    ∃ headRef c, s.find target = some (headRef, c) ∧
      s' = ⟨s.repo.switched H.filters c, headRef, s.leave⟩ := by
  rw [checkout, Effect.exec_attempt_bind_eq_ok, Effect.exec_get_bind] at h
  replace h := h.2
  cases hc : s.find target with
  | none => rw [hc] at h; cases h
  | some found =>
    obtain ⟨headRef, c⟩ := found
    rw [hc] at h
    dsimp only at h
    split_ifs at h
    · cases h
    · cases h
    · cases h
      exact ⟨headRef, c, rfl, rfl⟩

/-! ### What is preserved -/

/-- The commit that a commit of the device goes on top of. -/
def Branches.base (s : Branches) (deviceId : Str) : Option Commit :=
  (s.tip (deviceBranchName deviceId)).or s.repo.head

/-- The tree of a commit, empty before the first. -/
def treeOf (c : Option Commit) : Files := (c.map History.tree).getD ∅

/-- The commit left the working state as it was, and is what the branch of the device gained. -/
structure Preserves (deviceId : Str) (paths : List Str) (s s' : Branches) (commit : Commit) :
    Prop where
  /-- The same branch is checked out. -/
  headRef : s'.headRef = s.headRef
  /-- Without a branch, the same commit is. -/
  detached : s.headRef = .detached → s'.repo.head = s.repo.head
  /-- Every file is as it was. -/
  files : ∀ p content, s.repo.worktree.lookup p = some content →
    s'.repo.worktree.lookup p = some content
  /-- The commit is on the branch of the device. -/
  tip : s'.tip (deviceBranchName deviceId) = some commit
  /-- It is the only new one. -/
  parents : commit.parents = (s.base deviceId).toList
  /-- It changes the given paths and no others. -/
  changes : ∀ p, commit.tree.lookup p ≠ (treeOf (s.base deviceId)).lookup p ↔ p ∈ paths

/-- The repository with the branch of the device checked out. -/
def Branches.onDevice (s : Branches) (F : Filters) (deviceId : Str) : Repo :=
  match s.base deviceId with
  | none => s.repo
  | some c => s.repo.switched F c

/-- What git stores for the file at a given path, and what the branch of the device has at any
other. -/
def Branches.nextAt (s : Branches) (F : Filters) (deviceId : Str) (paths : List Str) (p : Str) :
    Option Content :=
  if p ∈ paths then (s.onDevice F deviceId).cleaned F p (.inside p)
  else (treeOf (s.base deviceId)).lookup p

/-- The two checkouts around the commit touch no file, and it has something to commit. -/
structure Undisturbed (F : Filters) (deviceId : Str) (paths : List Str) (s : Branches) : Prop where
  /-- Where the branch of the device has what `HEAD` has, nothing else is staged. -/
  staged : ∀ p ∉ paths, s.repo.headTree.lookup p = (treeOf (s.base deviceId)).lookup p →
    s.repo.stagedAt p = (treeOf (s.base deviceId)).lookup p
  /-- Each of the given paths has changed. -/
  changed : ∀ p ∈ paths, (s.onDevice F deviceId).cleaned F p (.inside p) ≠
    (treeOf (s.base deviceId)).lookup p
  /-- The branch of the device is the one that is checked out.  Otherwise every file at a path where
  the next commit differs from `HEAD` is as `HEAD` has it; and every other file is at a path where
  `HEAD` or the index has what the branch of the device has, or is as that branch has it. -/
  files : s.headRef = .branch (deviceBranchName deviceId) ∨ s.repo.head.isSome ∧
    ∀ p content, s.repo.worktree.lookup p = some content →
      if s.nextAt F deviceId paths p = s.repo.headTree.lookup p then
        s.repo.headTree.lookup p = (treeOf (s.base deviceId)).lookup p ∨
          s.repo.stagedAt p = (treeOf (s.base deviceId)).lookup p ∨
          ((treeOf (s.base deviceId)).lookup p).map (F.smudge p) = some content
      else (s.repo.headTree.lookup p).map (F.smudge p) = some content

/-! ### The steps -/

theorem exec_ensureDeviceBranch_eq_ok {deviceId : Str} {s s' : Branches} {u : Unit} {c₀ : Commit}
    (hhead : s.repo.head = some c₀)
    (h : Effect.exec (ensureDeviceBranch H deviceId) s = (.ok u, s')) :
    s'.repo = s.repo ∧ s'.headRef = s.headRef ∧
      s'.tip (deviceBranchName deviceId) = s.base deviceId ∧
      s'.tip = Function.update s.tip (deviceBranchName deviceId) (s.base deviceId) := by
  rw [ensureDeviceBranch, Effect.exec_get_bind] at h
  have hbase : s.base deviceId = (s.tip (deviceBranchName deviceId)).or s.repo.head := rfl
  split_ifs at h with hb
  · cases h
    obtain ⟨c, hc⟩ := Option.isSome_iff_exists.1 hb
    rw [hc, Option.some_or] at hbase
    refine ⟨rfl, rfl, hc.trans hbase.symm, ?_⟩
    rw [hbase, ← hc, Function.update_eq_self]
  · rw [Effect.exec_attempt_bind_eq_ok] at h
    replace h := h.2
    rw [hhead] at h
    cases h
    rw [Option.not_isSome_iff_eq_none] at hb
    rw [hb, Option.none_or, hhead] at hbase
    -- only the branch of the device is new
    have htip : ∀ name, Branches.tip ⟨s.repo, s.headRef,
        s.others.insert (deviceBranchName deviceId) c₀⟩ name =
          if name = deviceBranchName deviceId then some c₀ else s.tip name := by
      intro name
      rw [Branches.tip, Branches.tip]
      by_cases hn : name = deviceBranchName deviceId
      · subst hn
        rw [if_pos rfl]
        split_ifs with hr
        · exact hhead
        · exact AList.lookup_insert _
      · rw [if_neg hn, AList.lookup_insert_ne hn]
    refine ⟨rfl, rfl, ?_, funext fun name => ?_⟩
    · exact (htip _).trans ((if_pos rfl).trans hbase.symm)
    · rw [Function.update_apply, hbase]
      exact htip name

theorem exec_onRepo_eq_ok {α : Type} {m : Effect Repo Str α} {a : α} {s s' : Branches}
    (h : Effect.exec (onRepo m) s = (.ok a, s')) :
    ∃ r, Effect.exec m s.repo = (.ok a, r) ∧ s' = { s with repo := r } := by
  rw [onRepo, Effect.exec_focus] at h
  obtain ⟨hok, rfl⟩ := Prod.mk.inj h
  exact ⟨_, Prod.ext hok rfl, rfl⟩

/-- What is staged after the checkout of a tree is the tree, unless it was changed where both trees
agree. -/
theorem Repo.stagedAt_switched_eq_iff {F : Filters} {r : Repo} {c : Commit} {p : Str} :
    (r.switched F c).stagedAt p = c.tree.lookup p ↔
      (r.headTree.lookup p = c.tree.lookup p → r.stagedAt p = c.tree.lookup p) := by
  rw [stagedAt_switched]
  by_cases hw : r.writesAt c.tree p = true
  · rw [if_pos hw]
    exact ⟨fun _ h => absurd h (writesAt_iff.1 hw).1, fun _ => rfl⟩
  · rw [if_neg hw]
    rw [writesAt_iff, not_and_or, not_ne_iff, not_ne_iff] at hw
    exact ⟨fun h _ => h, fun h => hw.elim h id⟩

/-- A commit changes the given paths and no others when these have changed and nothing else is
staged. -/
theorem changes_iff {paths : List Str} {next staged cleaned base : Str → Option Content}
    (h : ∀ p, next p = if p ∈ paths then cleaned p else staged p) :
    (∀ p, next p ≠ base p ↔ p ∈ paths) ↔
      (∀ p ∉ paths, staged p = base p) ∧ ∀ p ∈ paths, cleaned p ≠ base p := by
  constructor
  · refine fun hall => ⟨fun p hp => ?_, fun p hp => ?_⟩
    · have := mt (hall p).1 hp
      rw [h p, if_neg hp] at this
      exact not_ne_iff.1 this
    · have := (hall p).2 hp
      rwa [h p, if_pos hp] at this
  · rintro ⟨hout, hin⟩ p
    rw [h p]
    split_ifs with hp
    · exact iff_of_true (hin p hp) hp
    · exact iff_of_false (not_ne_iff.2 (hout p hp)) hp

/-! ### Commits to the branch of the device -/

section Commit

variable {deviceId principal key : Str} {paths : List Str} {s s' : Branches} {commit : Commit}

theorem stagedAt_onDevice_iff (F : Filters) (p : Str) :
    (s.onDevice F deviceId).stagedAt p = (treeOf (s.base deviceId)).lookup p ↔
      (s.repo.headTree.lookup p = (treeOf (s.base deviceId)).lookup p →
        s.repo.stagedAt p = (treeOf (s.base deviceId)).lookup p) := by
  rw [Branches.onDevice]
  cases hbase : s.base deviceId with
  | some c => exact Repo.stagedAt_switched_eq_iff
  | none =>
    have hhead : s.repo.head = none := (Option.or_eq_none_iff.1 hbase).2
    have hheadTree : s.repo.headTree = treeOf none := by rw [Repo.headTree, hhead]; rfl
    rw [hheadTree]
    exact ⟨fun h _ => h, fun h => h rfl⟩

theorem changes_iff_of_signedCommit {r : Repo} (h : Effect.exec
    (signedCommit H paths principal key) (s.onDevice H.filters deviceId) = (.ok commit, r)) :
    (∀ p, commit.tree.lookup p ≠ (treeOf (s.base deviceId)).lookup p ↔ p ∈ paths) ↔
      (∀ p ∉ paths, s.repo.headTree.lookup p = (treeOf (s.base deviceId)).lookup p →
        s.repo.stagedAt p = (treeOf (s.base deviceId)).lookup p) ∧
      ∀ p ∈ paths, (s.onDevice H.filters deviceId).cleaned H.filters p (.inside p) ≠
        (treeOf (s.base deviceId)).lookup p := by
  obtain ⟨-, -, htree, -, hstaged⟩ := exec_signedCommit_eq_ok h
  have hnext : ∀ p, commit.tree.lookup p = _ :=
    fun p => (congrArg (AList.lookup p) htree).trans ((r.lookup_indexTree p).trans (hstaged p))
  rw [@changes_iff _ _ _ _ (treeOf (s.base deviceId)).lookup hnext]
  simp only [stagedAt_onDevice_iff]

theorem lookup_tree_eq_nextAt {r : Repo} (h : Effect.exec (signedCommit H paths principal key)
      (s.onDevice H.filters deviceId) = (.ok commit, r))
    (hchanges : ∀ p, commit.tree.lookup p ≠ (treeOf (s.base deviceId)).lookup p ↔ p ∈ paths)
    (p : Str) : commit.tree.lookup p = s.nextAt H.filters deviceId paths p := by
  obtain ⟨-, -, htree, -, hstaged⟩ := exec_signedCommit_eq_ok h
  rw [Branches.nextAt]
  split_ifs with hp
  · rw [htree, r.lookup_indexTree, hstaged, if_pos hp]
  · exact not_ne_iff.1 (mt (hchanges p).1 hp)

theorem preserves_iff_of_unborn (hhead : s.repo.head = none)
    (h : Effect.exec (commitToDeviceBranch H ignored deviceId paths principal key) s =
      (.ok commit, s')) :
    Preserves deviceId paths s s' commit ↔ Undisturbed H.filters deviceId paths s := by
  rw [commitToDeviceBranch, Effect.exec_get_bind, hhead] at h
  dsimp only at h
  rw [Effect.exec_bind_eq_ok] at h
  obtain ⟨_, s₁, href, hcommit⟩ := h
  rw [symbolicRef, Effect.exec_attempt_bind_eq_ok, Effect.exec_get_bind] at href
  obtain rfl := (Prod.mk.inj href.2).2
  obtain ⟨r₂, hsigned, rfl⟩ := exec_onRepo_eq_ok hcommit
  -- without a commit there is nothing to check out: the commit lands where `HEAD` points
  by_cases hdevice : s.headRef = .branch (deviceBranchName deviceId)
  · have htip : s.tip (deviceBranchName deviceId) = none := (if_pos hdevice).trans hhead
    have hbase : s.base deviceId = none := by rw [Branches.base, htip, hhead]; rfl
    have honDevice : { s.repo with head := s.tip (deviceBranchName deviceId) } =
        s.onDevice H.filters deviceId := by
      rw [Branches.onDevice, hbase, htip.trans hhead.symm]
    rw [honDevice] at hsigned
    have hchanges := changes_iff_of_signedCommit hsigned
    obtain ⟨⟨index, hr₂⟩, hparents, -⟩ := exec_signedCommit_eq_ok hsigned
    rw [Branches.onDevice, hbase] at hr₂ hparents
    constructor
    · intro hp
      obtain ⟨hstaged, hchanged⟩ := hchanges.1 hp.changes
      exact ⟨hstaged, hchanged, .inl hdevice⟩
    · intro hu
      exact {
        headRef := hdevice.symm
        detached := fun hd => HeadRef.noConfusion (hdevice.symm.trans hd)
        files := fun p content hf => by rw [hr₂]; exact hf
        tip := (if_pos rfl).trans (by rw [hr₂])
        parents := by rw [hparents, hbase, hhead]
        changes := hchanges.2 ⟨hu.staged, hu.changed⟩ }
  · refine iff_of_false (fun hp => hdevice hp.headRef.symm) fun hu => ?_
    rcases hu.files with hd | ⟨hsome, -⟩
    · exact hdevice hd
    · rw [hhead] at hsome
      cases hsome

theorem exec_commitToDeviceBranch_eq_ok {c₀ : Commit} (hhead : s.repo.head = some c₀)
    (h : Effect.exec (commitToDeviceBranch H ignored deviceId paths principal key) s =
      (.ok commit, s')) :
    ∃ c r, s.base deviceId = some c ∧ Effect.exec (signedCommit H paths principal key)
        (s.onDevice H.filters deviceId) = (.ok commit, r) ∧
      s'.headRef = s.headRef ∧ s'.tip (deviceBranchName deviceId) = some commit ∧
      s'.repo = r.switched H.filters
        (if s.headRef = .branch (deviceBranchName deviceId) then commit else c₀) := by
  rw [commitToDeviceBranch, Effect.exec_get_bind, hhead] at h
  dsimp only at h
  rw [Effect.exec_bind_eq_ok] at h
  obtain ⟨_, s₁, hensure, h⟩ := h
  obtain ⟨hrepo, hheadRef, htip, htips⟩ := exec_ensureDeviceBranch_eq_ok hhead hensure
  rw [Effect.exec_bind_eq_ok] at h
  obtain ⟨previous, s₂, hprevious, h⟩ := h
  rw [Effect.exec_bind_eq_ok] at h
  obtain ⟨_, s₃, hcheckout, h⟩ := h
  rw [Effect.exec_outcome_bind, Effect.exec_outcome_bind] at h
  -- the first checkout: the branch of the device
  obtain ⟨headRef, c, hfind, rfl⟩ := exec_checkout_eq_ok hcheckout
  obtain ⟨rfl, hbranch, hdetached⟩ : s₂ = s₁ ∧
      (∀ name, s.headRef = .branch name → previous = .branch name) ∧
      (s.headRef = .detached → previous = .commit c₀) := by
    rw [captureCurrentRef, Effect.exec_get_bind, hheadRef, hrepo, hhead] at hprevious
    cases hr : s.headRef <;> rw [hr] at hprevious <;> cases hprevious
    · exact ⟨rfl, fun name h => by rw [HeadRef.branch.inj h], HeadRef.noConfusion⟩
    · exact ⟨rfl, fun name h => HeadRef.noConfusion h, fun _ => rfl⟩
  rw [Branches.find, htip] at hfind
  obtain ⟨c', hbase, hc'⟩ := Option.map_eq_some_iff.1 hfind
  obtain ⟨rfl, rfl⟩ := Prod.mk.inj hc'
  rcases hcommit : Effect.exec (onRepo (signedCommit H paths principal key)) ⟨s₂.repo.switched
    H.filters c', .branch (deviceBranchName deviceId), s₂.leave⟩ with ⟨e | commit', s₄⟩
  · rw [hcommit] at h
    cases h
  rw [hcommit] at h
  rcases hrestore : Effect.exec (checkout H ignored previous) s₄ with ⟨e | u, s₅⟩
  · rw [hrestore] at h
    cases h
  rw [hrestore] at h
  obtain ⟨rfl, rfl⟩ : commit' = commit ∧ s₅ = s' := by cases h; exact ⟨rfl, rfl⟩
  obtain ⟨r, hsigned, rfl⟩ := exec_onRepo_eq_ok hcommit
  -- and back
  obtain ⟨headRef, c, hfind', rfl⟩ := exec_checkout_eq_ok hrestore
  obtain ⟨⟨index, hr⟩, -⟩ := exec_signedCommit_eq_ok hsigned
  have honDevice : s₂.repo.switched H.filters c' = s.onDevice H.filters deviceId := by
    rw [Branches.onDevice, hbase, hrepo]
  have hrhead : r.head = some commit' := by rw [hr]
  obtain ⟨rfl, rfl⟩ : headRef = s.headRef ∧
      c = if s.headRef = .branch (deviceBranchName deviceId) then commit' else c₀ := by
    cases href : s.headRef with
    | detached =>
      rw [hdetached href] at hfind'
      cases hfind'
      exact ⟨rfl, (if_neg HeadRef.noConfusion).symm⟩
    | branch name =>
      rw [hbranch name href] at hfind'
      obtain ⟨c₁, hc₁, hpair⟩ := Option.map_eq_some_iff.1 hfind'
      obtain ⟨rfl, rfl⟩ := Prod.mk.inj hpair
      refine ⟨rfl, Option.some.inj (hc₁.symm.trans ?_)⟩
      by_cases hname : name = deviceBranchName deviceId
      · rw [if_pos (by rw [hname]), Branches.tip, if_pos (by rw [hname]), hrhead]
      · have hne : HeadRef.branch name ≠ .branch (deviceBranchName deviceId) :=
          fun h => hname (HeadRef.branch.inj h)
        rw [if_neg hne, Branches.tip, if_neg hne.symm, Branches.lookup_leave, htips,
          Function.update_of_ne hname, Branches.tip, if_pos href, hhead]
  refine ⟨c', r, hbase, honDevice ▸ hsigned, rfl, ?_, rfl⟩
  rw [Branches.tip]
  split_ifs with hd
  · rfl
  · rw [Branches.lookup_leave, Branches.tip, if_pos rfl, hrhead]

/-- The checkout of the branch of the device leaves a file, or writes the same one. -/
theorem lookup_worktree_onDevice_iff {F : Filters} {c : Commit} (hbase : s.base deviceId = some c)
    {p : Str} {content : Content} (hf : s.repo.worktree.lookup p = some content) :
    (s.onDevice F deviceId).worktree.lookup p = some content ↔
      s.repo.headTree.lookup p = (treeOf (s.base deviceId)).lookup p ∨
        s.repo.stagedAt p = (treeOf (s.base deviceId)).lookup p ∨
        ((treeOf (s.base deviceId)).lookup p).map (F.smudge p) = some content := by
  rw [Branches.onDevice, hbase]
  change (s.repo.switched F c).worktree.lookup p = some content ↔
    s.repo.headTree.lookup p = c.tree.lookup p ∨ s.repo.stagedAt p = c.tree.lookup p ∨
      (c.tree.lookup p).map (F.smudge p) = some content
  rw [Repo.lookup_worktree_switched]
  by_cases hw : s.repo.writesAt c.tree p = true
  · rw [if_pos hw]
    obtain ⟨hhead, hstaged⟩ := Repo.writesAt_iff.1 hw
    rw [or_iff_right hhead, or_iff_right hstaged]
  · rw [if_neg hw]
    rw [Repo.writesAt_iff, not_and_or, not_ne_iff, not_ne_iff] at hw
    exact iff_of_true hf (hw.imp_right .inl)

theorem lookup_worktree_of_commitToDeviceBranch {c c₀ : Commit} {r : Repo}
    (hbase : s.base deviceId = some c)
    (hhead : s.repo.head = some c₀) (hsigned : Effect.exec (signedCommit H paths principal key)
      (s.onDevice H.filters deviceId) = (.ok commit, r))
    (hchanges : ∀ p, commit.tree.lookup p ≠ (treeOf (s.base deviceId)).lookup p ↔ p ∈ paths)
    {p : Str} {content : Content} (hf : s.repo.worktree.lookup p = some content) :
    (r.switched H.filters c₀).worktree.lookup p = some content ↔
      if s.nextAt H.filters deviceId paths p = s.repo.headTree.lookup p then
        s.repo.headTree.lookup p = (treeOf (s.base deviceId)).lookup p ∨
          s.repo.stagedAt p = (treeOf (s.base deviceId)).lookup p ∨
          ((treeOf (s.base deviceId)).lookup p).map (H.filters.smudge p) = some content
      else (s.repo.headTree.lookup p).map (H.filters.smudge p) = some content := by
  have hnext := lookup_tree_eq_nextAt hsigned hchanges p
  obtain ⟨⟨index, hr⟩, -, htree, -⟩ := exec_signedCommit_eq_ok hsigned
  have hheadTree : s.repo.headTree = c₀.tree := by rw [Repo.headTree, hhead]; rfl
  -- the index is the new commit, and so the second checkout compares the commits
  have hwrites : r.writesAt c₀.tree p = true ↔
      s.nextAt H.filters deviceId paths p ≠ s.repo.headTree.lookup p := by
    have hstagedAt : r.stagedAt p = commit.tree.lookup p := by rw [htree, r.lookup_indexTree]
    have hlookup : r.headTree.lookup p = commit.tree.lookup p := by rw [hr]; rfl
    rw [Repo.writesAt_iff, hstagedAt, hlookup, hnext, hheadTree, and_self]
  rw [Repo.lookup_worktree_switched]
  by_cases h : s.nextAt H.filters deviceId paths p = s.repo.headTree.lookup p
  · rw [if_neg fun hw => hwrites.1 hw h, if_pos h, ← lookup_worktree_onDevice_iff hbase hf, hr]
  · rw [if_pos (hwrites.2 h), if_neg h, hheadTree]

end Commit

/-! ### Examples -/

/-- A host without filters or faults, for examples. -/
def plainHost : Host where
  root := ["store".toList]
  filters := ⟨fun _ _ content => .ok content, fun _ content => content⟩
  sign principal _ := .ok ⟨"G".toList, principal⟩
  faults _ := none
  stamp := "1-1".toList

/-- A store with one commit on the given branch, and a new item in its inbox. -/
def exampleBranches (branch : Str) : Branches where
  repo :=
    { head := some (.root (AList.singleton "a.md".toList (.text "a\n".toList)) unsigned)
      index := AList.singleton "a.md".toList (.staged (.text "a\n".toList))
      worktree := (AList.singleton "a.md".toList (.text "a\n".toList)).insert "inbox/b.md".toList
        (.text "b\n".toList) }
  headRef := .branch branch
  others := ∅

/-- The commit of the new item to the branch of the device. -/
def exampleCommit : Effect Branches Str Commit :=
  commitToDeviceBranch plainHost (fun _ _ => false) "1".toList ["inbox/b.md".toList]
    "agent:a".toList "key".toList

end Git

end Wkp
