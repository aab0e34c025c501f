import Wkp.Git.Disk

/-!
# Signed commits

* `Git.signedCommit`, `Git.signedRemovalCommit` : stage the given paths, then commit the index.
* `Git.headTree_of_signedCommit` : the tree of the new commit is what the index held before, with the
  given paths staged anew.
-/

namespace Wkp

open Rust

namespace Git

/-- Git takes the path into its index: no name on the way is empty, `.`, `..` or `.git`. -/
def verifyPath (path : Str) : Bool :=
  (split '/' path).all fun name =>
    name ≠ [] && name ≠ ['.'] && name ≠ ['.', '.'] && name.map Char.toLower ≠ ".git".toList

/-- The path as git reads it: a relative one must not lead above the repository on its way. -/
def gitPath (root : List Str) (raw : Str) : Option Str :=
  if raw.head? = some '/' then
    match target root raw with
    | .inside path => some path
    | .outside _ => none
  else (Path.descend [] (Path.components raw)).map (join ['/'])

/-- A staged path is a directory on the way to the given one, or the other way round. -/
def Repo.clashes (r : Repo) (path : Str) : Bool :=
  r.index.keys.any fun p => (r.stagedAt p).isSome && (isUnder p path || isUnder path p)

/-- What git would store for the file that a path names. -/
def Repo.cleaned (r : Repo) (F : Filters) (path : Str) (place : Location) : Option Content :=
  (r.fileAt place).bind fun content => (F.clean r.worktree path content).toOption

section Commands

variable (H : Host)

/-- `git hash-object -w -- path`. -/
def hashObject (path : Str) : Effect Repo Str Content := do
  Effect.attempt (H.faults (.hashObject path))
  let r ← get
  match (r.resolve H.root path).bind r.fileAt with
  | none => throw ("fatal: could not open '".toList ++ path ++
      "' for reading: No such file or directory".toList)
  | some content => match H.filters.clean r.worktree path content with
    | .error e => throw e
    | .ok blob => return blob

/-- `git update-index --add --cacheinfo 100644,blob,path`. -/
def addCacheinfo (path : Str) (blob : Content) : Effect Repo Str Unit := do
  Effect.attempt (H.faults (.updateIndex path))
  let r ← get
  if !verifyPath path then
    throw ("error: Invalid path '".toList ++ path ++
      "'\nfatal: git update-index: --cacheinfo cannot add ".toList ++ path)
  else if r.clashes path then
    throw ("error: '".toList ++ path ++ "' appears as both a file and as a directory\n".toList ++
      "fatal: git update-index: --cacheinfo cannot add ".toList ++ path)
  else set { r with index := r.index.insert path (.staged blob) }

/-- `git update-index --remove -- path`: the path is staged as it is in the worktree.  Git skips a
path that it never takes into its index; here such a path is looked for and not found. -/
def removeFromIndex (path : Str) : Effect Repo Str Unit := do
  Effect.attempt (H.faults (.updateIndex path))
  let r ← get
  match gitPath H.root path with
  | none => throw ("fatal: '".toList ++ path ++ "' is outside repository".toList)
  | some p =>
    match r.worktree.lookup p with
    | none =>
      if r.isDir H.root (.inside p) ∧ r.stagedAt p = none then
        throw ("error: ".toList ++ p ++ ": is a directory - add files inside instead\n".toList ++
          "fatal: Unable to process path ".toList ++ p)
      else set { r with index := Repo.setAt r.index p none }
    | some content =>
      if p ∉ r.index then
        throw ("error: ".toList ++ p ++
          ": cannot add to the index - missing --add option?\n".toList ++
          "fatal: Unable to process path ".toList ++ p)
      else match H.filters.clean r.worktree p content with
        | .error e => throw e
        | .ok blob => set { r with index := Repo.setAt r.index p (some (.staged blob)) }

/-- `git write-tree`. -/
def writeTree : Effect Repo Str Files := do
  Effect.attempt (H.faults .writeTree)
  let r ← get
  if r.hasUnmerged then throw "fatal: git-write-tree: error building trees".toList
  else return r.indexTree

/-- Commit the index as it is, on top of `HEAD`. -/
def commitCurrentIndex (principal key : Str) : Effect Repo Str Commit := do
  let tree ← writeTree H
  let r ← get
  let parent := r.head
  Effect.attempt (H.faults .formatMessage)
  match H.sign principal key with
  | .error e => throw e
  | .ok signature =>
    let commit : Commit := match parent with
      | none => .root tree signature
      | some parent => .child tree signature parent
    Effect.attempt (H.faults .updateRef)
    set { r with head := some commit }
    return commit

/-- Stage one path. -/
def stageFile (path : Str) : Effect Repo Str Unit := do
  let blob ← hashObject H path
  addCacheinfo H path blob

/-- Stage the paths as they are in the worktree, and commit the index. -/
def signedCommit (paths : List Str) (principal key : Str) : Effect Repo Str Commit := do
  if paths.isEmpty then throw "signed_commit: no paths given".toList
  else
    forM paths (stageFile H)
    commitCurrentIndex H principal key

/-- Stage the removal of the paths, and commit the index. -/
def signedRemovalCommit (paths : List Str) (principal key : Str) : Effect Repo Str Commit := do
  if paths.isEmpty then throw "signed_removal_commit: no paths given".toList
  else
    forM paths (removeFromIndex H)
    commitCurrentIndex H principal key

end Commands

/-! ### Paths that git takes -/

theorem components_of_verifyPath {path : Str} (h : verifyPath path = true) :
    Path.components path = (split '/' path).map .normal := by
  rw [verifyPath, List.all_eq_true] at h
  have hname : ∀ name ∈ split '/' path, name ≠ [] ∧ name ≠ ['.'] ∧ name ≠ ['.', '.'] := by
    intro name hn
    have := h name hn
    simp only [Bool.and_eq_true, decide_eq_true_eq] at this
    exact ⟨this.1.1.1, this.1.1.2, this.1.2⟩
  have hnonempty : (split '/' path).filter (· ≠ []) = split '/' path :=
    List.filter_eq_self.2 fun name hn => decide_eq_true (hname name hn).1
  have hdots : (split '/' path).filter (· ≠ ['.']) = split '/' path :=
    List.filter_eq_self.2 fun name hn => decide_eq_true (hname name hn).2.1
  have hmap : (split '/' path).map Path.nameComponent = (split '/' path).map .normal :=
    List.map_congr_left fun name hn => if_neg (hname name hn).2.2
  have hslash : path.head? ≠ some '/' := by
    intro hp
    obtain ⟨rest, rfl⟩ : ∃ rest, path = '/' :: rest := ⟨path.tail, List.eq_cons_of_mem_head? hp⟩
    refine (hname [] ?_).1 rfl
    rw [split, List.splitOn_cons_eq_if_modifyHead, if_pos (beq_self_eq_true _)]
    exact List.mem_cons_self
  have hcur : (split '/' path).head? ≠ some ['.'] := fun hc =>
    (hname _ (List.mem_of_mem_head? hc)).2.1 rfl
  rw [Path.components]
  simp only [hnonempty, hdots, hmap, if_neg hslash, if_neg hcur]

theorem target_of_verifyPath (root : List Str) {path : Str} (h : verifyPath path = true) :
    target root path = .inside path := by
  have hcs := components_of_verifyPath h
  have hjoin : componentsUnder root path = .rootDir :: (root ++ split '/' path).map .normal := by
    have hslash : path.head? ≠ some '/' := by
      intro hp
      rw [Path.components] at hcs
      simp only [if_pos hp] at hcs
      cases hs : split '/' path with
      | nil => rw [hs] at hcs; cases hcs
      | cons name names => rw [hs] at hcs; cases hcs
    have hcur : ((split '/' path).map Component.normal).filter (· ≠ .curDir) =
        (split '/' path).map .normal := by
      refine List.filter_eq_self.2 fun c hc => decide_eq_true ?_
      obtain ⟨name, -, rfl⟩ := List.mem_map.1 hc
      exact Component.noConfusion
    rw [componentsUnder, Path.join, if_neg (not_or.2 ⟨hslash, List.cons_ne_nil _ _⟩), hcs, hcur,
      List.map_append]
    rfl
  have hnames : Path.normalize (componentsUnder root path) = root ++ split '/' path := by
    rw [hjoin, Path.normalize, List.foldl_cons]
    exact Path.foldl_follow_normal [] _
  rw [target, locate, hnames, if_pos (List.isPrefixOf_iff_prefix.2 (List.prefix_append _ _)),
    List.drop_left, join, split, List.intercalate_splitOn]

/-- Git and the disk agree on where a path leads, when git accepts it. -/
theorem target_of_gitPath {root : List Str} {raw path : Str} (h : gitPath root raw = some path) :
    target root raw = .inside path := by
  rw [gitPath] at h
  split_ifs at h with hslash
  · cases ht : target root raw with
    | inside p =>
      rw [ht] at h
      rw [Option.some.inj h]
    | outside names => rw [ht] at h; cases h
  · obtain ⟨names, hnames, rfl⟩ := Option.map_eq_some_iff.1 h
    have hcs : componentsUnder root raw =
        .rootDir :: root.map .normal ++ (Path.components raw).filter (· ≠ .curDir) :=
      if_neg (not_or.2 ⟨hslash, List.cons_ne_nil _ _⟩)
    have hfollow : Path.normalize (componentsUnder root raw) = root ++ names := by
      rw [hcs, Path.normalize, List.foldl_append, List.foldl_cons]
      have hroot := Path.foldl_follow_normal [] root
      rw [List.nil_append] at hroot
      have hstart : (root.map Component.normal).foldl Path.follow (Path.follow [] .rootDir) =
          root ++ [] := hroot.trans (List.append_nil root).symm
      rw [hstart]
      exact Path.foldl_follow_of_descend ((Path.descend_filter_curDir _ _).trans hnames)
    rw [target, locate, hfollow, if_pos (List.isPrefixOf_iff_prefix.2 (List.prefix_append _ _)),
      List.drop_left]

/-! ### What a successful step did -/

variable {H : Host} {r r' : Repo}

theorem exec_hashObject_eq_ok {path : Str} {blob : Content}
    (h : Effect.exec (hashObject H path) r = (.ok blob, r')) :
    r' = r ∧ r.cleaned H.filters path (target H.root path) = some blob := by
  rw [hashObject, Effect.exec_attempt_bind_eq_ok, Effect.exec_get_bind] at h
  replace h := h.2
  cases hf : (r.resolve H.root path).bind r.fileAt with
  | none => rw [hf] at h; cases h
  | some content =>
    rw [hf] at h
    dsimp only at h
    cases hc : H.filters.clean r.worktree path content with
    | error e => rw [hc] at h; cases h
    | ok b =>
      rw [hc] at h
      cases h
      obtain ⟨place, hr, hplace⟩ := Option.bind_eq_some_iff.1 hf
      rw [Repo.eq_target_of_resolve hr] at hplace
      refine ⟨rfl, ?_⟩
      rw [Repo.cleaned, hplace, Option.bind_some, hc]
      rfl

theorem exec_addCacheinfo_eq_ok {path : Str} {blob : Content} {u : Unit}
    (h : Effect.exec (addCacheinfo H path blob) r = (.ok u, r')) :
    verifyPath path = true ∧ r' = { r with index := Repo.setAt r.index path (some (.staged blob)) } := by
  rw [addCacheinfo, Effect.exec_attempt_bind_eq_ok, Effect.exec_get_bind] at h
  replace h := h.2
  split_ifs at h with hv hclash
  · cases h
  · cases h
  · cases h
    exact ⟨by simpa using hv, rfl⟩

theorem exec_removeFromIndex_eq_ok {path : Str} {u : Unit}
    (h : Effect.exec (removeFromIndex H path) r = (.ok u, r')) :
    ∃ p, gitPath H.root path = some p ∧ r' = { r with
      index := Repo.setAt r.index p ((r.cleaned H.filters p (.inside p)).map .staged) } := by
  rw [removeFromIndex, Effect.exec_attempt_bind_eq_ok, Effect.exec_get_bind] at h
  replace h := h.2
  cases hp : gitPath H.root path with
  | none => rw [hp] at h; cases h
  | some p =>
    rw [hp] at h
    dsimp only at h
    refine ⟨p, rfl, ?_⟩
    rw [Repo.cleaned, Repo.fileAt]
    cases hw : r.worktree.lookup p with
    | none =>
      rw [hw] at h
      dsimp only at h
      split_ifs at h
      · cases h
      · cases h
        rfl
    | some content =>
      rw [hw] at h
      dsimp only at h
      split_ifs at h
      · rw [Option.bind_some]
        cases hc : H.filters.clean r.worktree p content with
        | error e => rw [hc] at h; cases h
        | ok blob =>
          rw [hc] at h
          cases h
          rfl
      · cases h

theorem exec_commitCurrentIndex_eq_ok {principal key : Str} {commit : Commit}
    (h : Effect.exec (commitCurrentIndex H principal key) r = (.ok commit, r')) :
    r' = { r with head := some commit } ∧ commit.tree = r.indexTree ∧
      commit.parents = r.head.toList := by
  rw [commitCurrentIndex, Effect.exec_bind_eq_ok] at h
  obtain ⟨tree, r₁, htree, h⟩ := h
  rw [writeTree, Effect.exec_attempt_bind_eq_ok, Effect.exec_get_bind] at htree
  replace htree := htree.2
  split_ifs at htree
  · cases htree
  cases htree
  rw [Effect.exec_get_bind] at h
  dsimp only at h
  rw [Effect.exec_attempt_bind_eq_ok] at h
  replace h := h.2
  cases hs : H.sign principal key with
  | error e => rw [hs] at h; cases h
  | ok signature =>
    rw [hs] at h
    dsimp only at h
    rw [Effect.exec_attempt_bind_eq_ok] at h
    replace h := h.2
    cases h
    refine ⟨rfl, ?_⟩
    cases r.head <;> exact ⟨rfl, rfl⟩

/-! ### What a signed commit holds -/

theorem stagedAt_setAt {p path : Str} {entry : Option Content} {r : Repo} :
    ({ r with index := Repo.setAt r.index path (entry.map .staged) } : Repo).stagedAt p =
      if p = path then entry else r.stagedAt p := by
  rw [Repo.stagedAt, Repo.lookup_setAt]
  split_ifs with h
  · cases entry <;> rfl
  · rfl

theorem exec_forM_stageFile_eq_ok {paths : List Str} {u : Unit}
    (h : Effect.exec (forM paths (stageFile H)) r = (.ok u, r')) :
    (∃ index, r' = { r with index := index }) ∧
      (∀ path ∈ paths, verifyPath path = true ∧
        (r.cleaned H.filters path (.inside path)).isSome) ∧
      ∀ p, r'.stagedAt p =
        if p ∈ paths then r.cleaned H.filters p (.inside p) else r.stagedAt p := by
  induction paths generalizing r with
  | nil =>
    cases h
    exact ⟨⟨_, rfl⟩, nofun, fun p => (if_neg List.not_mem_nil).symm⟩
  | cons path paths ih =>
    rw [List.forM_cons, Effect.exec_bind_eq_ok] at h
    obtain ⟨_, r₁, hstage, h⟩ := h
    rw [stageFile, Effect.exec_bind_eq_ok] at hstage
    obtain ⟨blob, r₂, hhash, hadd⟩ := hstage
    obtain ⟨rfl, hblob⟩ := exec_hashObject_eq_ok hhash
    obtain ⟨hverify, rfl⟩ := exec_addCacheinfo_eq_ok hadd
    rw [target_of_verifyPath H.root hverify] at hblob
    obtain ⟨⟨index, hr'⟩, hpaths, hstaged⟩ := ih h
    -- staging leaves the files, and so what git would store for them
    refine ⟨⟨index, hr'⟩, List.forall_mem_cons.2 ⟨⟨hverify, ?_⟩, hpaths⟩, fun p => ?_⟩
    · rw [hblob]
      rfl
    · rw [hstaged p]
      by_cases hp : p ∈ paths
      · rw [if_pos hp, if_pos (List.mem_cons_of_mem _ hp)]
        rfl
      · rw [if_neg hp]
        refine (@stagedAt_setAt p path (some blob) _).trans ?_
        by_cases hq : p = path
        · subst hq
          rw [if_pos rfl, if_pos List.mem_cons_self, hblob]
        · rw [if_neg hq, if_neg (by simp [hp, hq])]

/-- A signed commit is made on top of the one that was checked out, from the index with the given
paths staged anew. -/
theorem exec_signedCommit_eq_ok {paths : List Str} {principal key : Str} {commit : Commit}
    (h : Effect.exec (signedCommit H paths principal key) r = (.ok commit, r')) :
    (∃ index, r' = { r with index := index, head := some commit }) ∧
      commit.parents = r.head.toList ∧ commit.tree = r'.indexTree ∧
      (∀ path ∈ paths, verifyPath path = true ∧
        (r.cleaned H.filters path (.inside path)).isSome) ∧
      ∀ p, r'.stagedAt p =
        if p ∈ paths then r.cleaned H.filters p (.inside p) else r.stagedAt p := by
  unfold signedCommit at h
  split_ifs at h
  · cases h
  rw [Effect.exec_bind_eq_ok] at h
  obtain ⟨_, r₁, hloop, h⟩ := h
  obtain ⟨⟨index, rfl⟩, hpaths, hstaged⟩ := exec_forM_stageFile_eq_ok hloop
  obtain ⟨rfl, htree, hparents⟩ := exec_commitCurrentIndex_eq_ok h
  exact ⟨⟨index, rfl⟩, hparents, htree, hpaths, hstaged⟩

/-- **What a signed commit holds**: the given paths as they are in the worktree, and at every other
path what was staged before. -/
theorem headTree_of_signedCommit {paths : List Str} {principal key : Str} {commit : Commit}
    (h : Effect.exec (signedCommit H paths principal key) r = (.ok commit, r')) :
    r'.worktree = r.worktree ∧
      (∀ path ∈ paths, verifyPath path = true ∧
        (r.cleaned H.filters path (.inside path)).isSome) ∧
      ∀ p, r'.headTree.lookup p =
        if p ∈ paths then r.cleaned H.filters p (.inside p) else r.stagedAt p := by
  obtain ⟨⟨index, rfl⟩, -, htree, hpaths, hstaged⟩ := exec_signedCommit_eq_ok h
  refine ⟨rfl, hpaths, fun p => ?_⟩
  rw [← hstaged p, ← Repo.lookup_indexTree, ← htree]
  rfl

/-- A signed removal of one path holds what was staged before, but the path. -/
theorem headTree_of_signedRemovalCommit {path principal key : Str} {commit : Commit}
    (h : Effect.exec (signedRemovalCommit H [path] principal key) r = (.ok commit, r')) :
    ∃ p, gitPath H.root path = some p ∧ ∀ q, r'.headTree.lookup q =
      if q = p then r.cleaned H.filters p (.inside p) else r.stagedAt q := by
  unfold signedRemovalCommit at h
  rw [List.isEmpty_cons, if_neg Bool.false_ne_true, Effect.exec_bind_eq_ok] at h
  obtain ⟨_, r₁, hloop, h⟩ := h
  rw [List.forM_cons, Effect.exec_bind_eq_ok] at hloop
  obtain ⟨_, r₂, hremove, hloop⟩ := hloop
  cases hloop
  obtain ⟨p, hp, rfl⟩ := exec_removeFromIndex_eq_ok hremove
  obtain ⟨rfl, htree, -⟩ := exec_commitCurrentIndex_eq_ok h
  refine ⟨p, hp, fun q => ?_⟩
  rw [← stagedAt_setAt, ← Repo.lookup_indexTree, ← htree]
  rfl

end Git

end Wkp
