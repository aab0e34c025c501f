import Wkp.Git.SignedCommit

/-!
# Branches

A repository with its branches, and the commits that go to the branch of the device.

* `Git.Branches` : the state, the checked out commit with its branch and the other branches.
* `Git.Repo.switched`, `Git.checkout` : what a checkout makes of the index and of the worktree, and
  when it refuses.
* `Git.commitToDeviceBranch` : check the branch of the device out, commit there, and go back.
-/

namespace Wkp

open Rust

namespace Git

/-! ### The state -/

/-- What `HEAD` names. -/
inductive HeadRef
  | branch (name : Str)
  | detached
  deriving DecidableEq

/-- A repository with its branches. -/
structure Branches where
  /-- The commit that is checked out, the index and the worktree. -/
  repo : Repo
  /-- The branch that is checked out, if any. -/
  headRef : HeadRef
  /-- The commits of the other branches. -/
  others : AList fun _ : Str => Commit

namespace Branches

/-- The commit of a branch. -/
def tip (s : Branches) (name : Str) : Option Commit :=
  if s.headRef = .branch name then s.repo.head else s.others.lookup name

/-- The branches that remain when another one is checked out. -/
def leave (s : Branches) : AList fun _ : Str => Commit :=
  match s.headRef with
  | .branch name => Repo.setAt s.others name s.repo.head
  | .detached => s.others

theorem lookup_leave {s : Branches} {name : Str} : s.leave.lookup name = s.tip name := by
  rw [leave, tip]
  cases s.headRef with
  | detached => rw [if_neg nofun]
  | branch b =>
    rw [Repo.lookup_setAt]
    by_cases h : name = b
    · rw [if_pos h, if_pos (by rw [h])]
    · rw [if_neg h, if_neg fun hb => h (HeadRef.branch.inj hb).symm]

end Branches

/-! ### Checkout -/

namespace Repo

/-- A content for each of the paths. -/
def setAll {β : Type} (l : AList fun _ : Str => β) (paths : List Str) (f : Str → Option β) :
    AList fun _ : Str => β :=
  paths.foldl (fun l path => setAt l path (f path)) l

theorem lookup_setAll {β : Type} (l : AList fun _ : Str => β) (paths : List Str)
    (f : Str → Option β) (p : Str) :
    (setAll l paths f).lookup p = if p ∈ paths then f p else l.lookup p := by
  induction paths generalizing l with
  | nil => exact (if_neg List.not_mem_nil).symm
  | cons path paths ih =>
    refine (ih _).trans ?_
    rw [lookup_setAt]
    by_cases hp : p ∈ paths
    · rw [if_pos hp, if_pos (List.mem_cons_of_mem _ hp)]
    · rw [if_neg hp]
      by_cases hq : p = path
      · rw [if_pos hq, if_pos (hq ▸ List.mem_cons_self), hq]
      · rw [if_neg hq, if_neg (by simp [hp, hq])]

variable (F : Filters) (r : Repo) (new : Files)

/-- Git has nothing to lose at a path that is staged: the file is gone, or is what is staged. -/
def upToDate (path : Str) (blob : Content) : Bool :=
  match r.worktree.lookup path with
  | none => true
  | some content => content = F.smudge path blob ||
      (F.clean r.worktree path content).toOption = some blob

/-- A checkout of the tree writes the path. -/
def writesAt (path : Str) : Bool :=
  r.headTree.lookup path ≠ new.lookup path && r.stagedAt path ≠ new.lookup path

/-- A checkout of the tree would lose what is staged at the path, or its file. -/
def losesAt (ignored : Str → Bool) (path : Str) : Bool :=
  r.headTree.lookup path ≠ new.lookup path && match r.stagedAt path with
    | none => (r.headTree.lookup path).isSome && (new.lookup path).isSome ||
        (r.worktree.lookup path).isSome && !ignored path
    | some blob => some blob ≠ new.lookup path &&
        (some blob ≠ r.headTree.lookup path || !r.upToDate F path blob)

/-- The paths that a checkout of the tree writes. -/
def written : List Str := (r.headTree.keys ++ new.keys).filter (r.writesAt new)

/-- The repository after a checkout of a commit. -/
def switched (commit : Commit) : Repo :=
  { r with
    head := some commit
    index := setAll r.index (r.written commit.tree) fun path =>
      (commit.tree.lookup path).map .staged
    worktree := setAll r.worktree (r.written commit.tree) fun path =>
      (commit.tree.lookup path).map (F.smudge path)
    mergeHead := none
    -- a directory goes with the last file in it
    dirs := r.dirs.filter fun dir => !(r.written commit.tree).any fun path =>
      isUnder dir path && commit.tree.lookup path = none }

end Repo

/-- What to check out. -/
inductive Target
  | branch (name : Str)
  | commit (c : Commit)

/-- The branch to check out, if it is one. -/
def Target.branch? : Target → Option Str
  | branch name => some name
  | commit _ => none

/-- What `HEAD` names after a checkout, and its commit. -/
def Branches.find (s : Branches) : Target → Option (HeadRef × Commit)
  | .branch name => (s.tip name).map fun c => (.branch name, c)
  | .commit c => some (.detached, c)

variable (H : Host) (ignored : Repo → Str → Bool)

/-- `git checkout --quiet target`. -/
def checkout (target : Target) : Effect Branches Str Unit := do
  Effect.attempt (H.faults (.checkout target.branch?))
  let s ← get
  match s.find target with
  | none => throw "error: pathspec did not match any file(s) known to git".toList
  | some (headRef, c) =>
    if s.repo.hasUnmerged then throw "error: you need to resolve your current index first".toList
    else if (s.repo.headTree.keys ++ c.tree.keys).any
        (s.repo.losesAt H.filters c.tree (ignored s.repo)) then
      throw "error: Your local changes would be overwritten by checkout".toList
    else set { s with
      repo := s.repo.switched H.filters c, headRef := headRef, others := s.leave : Branches }

/-! ### The branch of a device -/

/-- The branch of a device. -/
def deviceBranchName (deviceId : Str) : Str := "sync/".toList ++ deviceId

/-- The name of the device, from `.wkp/device-id`; without one, `generated` is written there. -/
def deviceId (generated : Except Str Str) : Effect Repo Str Str := do
  let r ← get
  let path := ".wkp/device-id".toList
  let existing := match r.readToString H.root path with
    | .ok text => trim text
    | .error _ => []
  if existing ≠ [] then return existing
  else
    let id ← Effect.ofExcept generated
    match Path.parent (componentsUnder H.root path) with
      | some dir => createDirAll H dir
      | none => pure ()
    writeFile H path (id ++ ['\n'])
    return id

/-- Make the branch of the device, at the checked out commit, unless it is there. -/
def ensureDeviceBranch (deviceId : Str) : Effect Branches Str Unit := do
  let s ← get
  if (s.tip (deviceBranchName deviceId)).isSome then return
  else
    Effect.attempt (H.faults .branch)
    match s.repo.head with
    | none => throw "fatal: not a valid object name: 'HEAD'".toList
    | some c => set { s with others := s.others.insert (deviceBranchName deviceId) c }

/-- What is checked out, to go back to. -/
def captureCurrentRef : Effect Branches Str Target := do
  let s ← get
  match s.headRef, s.repo.head with
  | .branch name, _ => return .branch name
  | .detached, some c => return .commit c
  | .detached, none => throw "fatal: ambiguous argument 'HEAD': unknown revision".toList

/-- `git symbolic-ref HEAD refs/heads/name`. -/
def symbolicRef (name : Str) : Effect Branches Str Unit := do
  Effect.attempt (H.faults .symbolicRef)
  let s ← get
  set { s with
    repo := { s.repo with head := s.tip name }, headRef := .branch name, others := s.leave : Branches }

/-- A command on the repository, whichever branch is checked out. -/
def onRepo {α : Type} (m : Effect Repo Str α) : Effect Branches Str α :=
  Effect.focus Branches.repo (fun s r => { s with repo := r }) m

/-- Commit the paths, as they are in the worktree, to the branch of the device, and go back to
what was checked out. -/
def commitToDeviceBranch (deviceId : Str) (paths : List Str) (principal key : Str) :
    Effect Branches Str Commit := do
  let s ← get
  match s.repo.head with
  | none =>
    -- the first commit of a store starts the branch of the device
    symbolicRef H (deviceBranchName deviceId)
    onRepo (signedCommit H paths principal key)
  | some _ =>
    ensureDeviceBranch H deviceId
    let previous ← captureCurrentRef
    checkout H ignored (.branch (deviceBranchName deviceId))
    let result ← Effect.outcome (onRepo (signedCommit H paths principal key))
    let restored ← Effect.outcome (checkout H ignored previous)
    match result, restored with
    | .ok commit, .ok _ => return commit
    | .ok _, .error e =>
      throw ("commit succeeded but failed to restore the previous branch: ".toList ++ e)
    | .error e, _ => throw e

end Git

end Wkp
