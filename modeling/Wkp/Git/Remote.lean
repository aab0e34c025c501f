import Wkp.Git.Repo

/-!
# Merging a branch

* `Git.FileMerge`, `Git.Incoming` : what a merge does to each path, as git decided.
* `Git.mergeBranch`, `Git.finishMerge` : the two commands of a merge.
-/

namespace Wkp

open Rust

namespace Git

/-- What git does at one path that differs between the two sides. -/
inductive FileMerge
  /-- It settles the path by itself: on one of the versions, or by its own merge of texts. -/
  | settled (version : Option Content)
  /-- Both sides have a version of their own, and the merge driver is handed the three; the base
  is missing when both sides added the path. -/
  | driven (base : Option Content) (ours theirs : Content)
  /-- It leaves the path unmerged, with this file in the worktree. -/
  | stopped (stages : Stages) (file : Option Content)

/-- How a merge goes about the commits. -/
inductive MergeKind
  | refused | upToDate | fastForward | threeWay
  deriving DecidableEq, Repr

/-- A branch to merge, and what its merge does. -/
structure Incoming where
  /-- The name of the branch. -/
  ref : Str
  /-- Its commit. -/
  commit : Commit
  /-- Whether and how git merges it. -/
  kind : MergeKind
  /-- The paths that the merge touches. -/
  files : AList fun _ : Str => FileMerge

/-- A merge driver: what it makes of the base, ours and theirs, or nothing when it fails. -/
abbrev Driver := Content → Content → Content → Option Content

variable (F : Filters) (driver : Driver)

/-- What the merge of a path leaves in the index and in the worktree. -/
def FileMerge.outcome (path : Str) : FileMerge → Option IndexEntry × Option Content
  | settled version => (version.map .staged, version.map (F.smudge path))
  | driven base ours theirs =>
    match driver (base.getD (.text [])) ours theirs with
    | some merged => (some (.staged merged), some (F.smudge path merged))
    | none =>
      -- the file of ours is left as the driver was given it
      (some (.unmerged ⟨base, some ours, some theirs, .inr (.inl rfl)⟩), some (F.smudge path ours))
  | stopped stages file => (some (.unmerged stages), file)

/-- The repository after the merge of one path. -/
def settleFile (r : Repo) (path : Str) (file : FileMerge) : Repo :=
  let outcome := file.outcome F driver path
  { r with
    index := Repo.setAt r.index path outcome.1
    worktree := Repo.setAt r.worktree path outcome.2 }

/-- The repository after the merge of every path. -/
def settleFiles (r : Repo) (files : AList fun _ : Str => FileMerge) : Repo :=
  files.entries.foldl (fun r e => settleFile F driver r e.1 e.2) r

/-- The commit of a merge; on a branch with no commit yet it is theirs. -/
def mergeCommit (head : Option Commit) (tree : Files) (theirs : Commit) : Commit :=
  match head with
  | none => theirs
  | some ours => .merge tree unsigned ours theirs

/-- `git merge`: whether it completed.  It does not start while a merge is unfinished. -/
def mergeBranch (m : Incoming) : Effect Repo Str Bool := do
  let r ← get
  if r.mergeHead.isSome ∨ r.hasUnmerged = true then return false
  else match m.kind with
    | .refused => return false
    | .upToDate => return true
    | .fastForward =>
      set { settleFiles F driver r m.files with head := some m.commit }
      return true
    | .threeWay =>
      let s := settleFiles F driver r m.files
      if s.hasUnmerged then
        set { s with mergeHead := some m.commit }
        return false
      else
        set { s with head := some (mergeCommit r.head s.indexTree m.commit) }
        return true

/-- `git commit --no-edit`, to finish a merge. -/
def finishMerge : Effect Repo Str Unit := do
  let r ← get
  if r.hasUnmerged then
    throw "error: Committing is not possible because you have unmerged files.".toList
  else match r.mergeHead with
    | none => throw "Aborting commit due to empty commit message.".toList
    | some theirs =>
      set { r with head := some (mergeCommit r.head r.indexTree theirs), mergeHead := none }

/-! ### What a merge leaves -/

/-- The files of a merge do not move `HEAD`, and start or end no merge. -/
theorem head_settleFiles (r : Repo) (files : AList fun _ : Str => FileMerge) :
    (settleFiles F driver r files).head = r.head ∧
      (settleFiles F driver r files).mergeHead = r.mergeHead := by
  rw [settleFiles]
  generalize files.entries = l
  induction l generalizing r with
  | nil => exact ⟨rfl, rfl⟩
  | cons e l ih => exact ih (settleFile F driver r e.1 e.2)

theorem exec_mergeBranch_eq_ok {m : Incoming} {clean : Bool} {r r' : Repo}
    (h : Effect.exec (mergeBranch F driver m) r = (.ok clean, r')) :
    (clean = false ∧ (r' = r ∨ r.mergeHead = none ∧ r'.mergeHead = some m.commit ∧
        r'.head = r.head)) ∨
      clean = true ∧ r.mergeHead = none ∧ r'.mergeHead = none ∧
        (m.kind = .upToDate ∧ r'.head = r.head ∨ m.kind = .fastForward ∧ r'.head = some m.commit ∨
          ∃ tree, r'.head = some (mergeCommit r.head tree m.commit)) := by
  rw [mergeBranch, Effect.exec_get_bind] at h
  split_ifs at h with hbusy
  · cases h
    exact .inl ⟨rfl, .inl rfl⟩
  have hnone : r.mergeHead = none := by
    rw [not_or, Bool.not_eq_true, Option.isSome_eq_false_iff, Option.isNone_iff_eq_none] at hbusy
    exact hbusy.1
  obtain ⟨hhead, hmergeHead⟩ := head_settleFiles F driver r m.files
  cases hk : m.kind <;> rw [hk] at h <;> dsimp only at h
  case refused =>
    cases h
    exact .inl ⟨rfl, .inl rfl⟩
  case upToDate =>
    cases h
    exact .inr ⟨rfl, hnone, hnone, .inl ⟨rfl, rfl⟩⟩
  case fastForward =>
    cases h
    exact .inr ⟨rfl, hnone, hmergeHead.trans hnone, .inr (.inl ⟨rfl, rfl⟩)⟩
  case threeWay =>
    split_ifs at h
    · cases h
      exact .inl ⟨rfl, .inr ⟨hnone, rfl, hhead⟩⟩
    · cases h
      exact .inr ⟨rfl, hnone, hmergeHead.trans hnone, .inr (.inr ⟨_, rfl⟩)⟩

theorem lookup_foldl_settleFile {l : List (Sigma fun _ : Str => FileMerge)} {path : Str}
    (h : path ∉ l.keys) (r : Repo) :
    (l.foldl (fun r e => settleFile F driver r e.1 e.2) r).index.lookup path =
        r.index.lookup path ∧
      (l.foldl (fun r e => settleFile F driver r e.1 e.2) r).worktree.lookup path =
        r.worktree.lookup path := by
  induction l generalizing r with
  | nil => exact ⟨rfl, rfl⟩
  | cons e l ih =>
    rw [List.keys_cons, List.mem_cons, not_or] at h
    obtain ⟨hi, hw⟩ := ih h.2 (settleFile F driver r e.1 e.2)
    rw [List.foldl_cons, hi, hw]
    exact ⟨(Repo.lookup_setAt _ _ _ _).trans (if_neg h.1),
      (Repo.lookup_setAt _ _ _ _).trans (if_neg h.1)⟩

theorem lookup_settleFiles_of_notMem (r : Repo) {files : AList fun _ : Str => FileMerge} {path : Str}
    (h : path ∉ files) :
    (settleFiles F driver r files).index.lookup path = r.index.lookup path ∧
      (settleFiles F driver r files).worktree.lookup path = r.worktree.lookup path :=
  lookup_foldl_settleFile F driver h r

theorem lookup_settleFiles (r : Repo) (files : AList fun _ : Str => FileMerge) {path : Str}
    {file : FileMerge} (h : files.lookup path = some file) :
    (settleFiles F driver r files).index.lookup path = (file.outcome F driver path).1 ∧
      (settleFiles F driver r files).worktree.lookup path = (file.outcome F driver path).2 := by
  obtain ⟨l, hl⟩ := files
  replace h : l.dlookup path = some file := h
  change (l.foldl _ r).index.lookup path = _ ∧ (l.foldl _ r).worktree.lookup path = _
  induction l generalizing r with
  | nil => cases h
  | cons e l ih =>
    obtain ⟨q, file'⟩ := e
    rw [List.nodupKeys_cons] at hl
    rw [List.foldl_cons]
    by_cases hq : path = q
    · subst hq
      rw [List.dlookup_cons_eq] at h
      obtain rfl := Option.some.inj h
      obtain ⟨hi, hw⟩ := lookup_foldl_settleFile F driver hl.1 (settleFile F driver r path file')
      rw [hi, hw]
      exact ⟨(Repo.lookup_setAt _ _ _ _).trans (if_pos rfl),
        (Repo.lookup_setAt _ _ _ _).trans (if_pos rfl)⟩
    · rw [List.dlookup_cons_ne _ _ hq] at h
      exact ih (settleFile F driver r q file') hl.2 h

end Git

end Wkp
