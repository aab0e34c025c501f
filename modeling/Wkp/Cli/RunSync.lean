import Wkp.Cli.Merged
import Wkp.Git.Clone
import Wkp.Lib.Rely

/-!
# A sync, command by command

`wkp sync`, `wkp bundle export` and `wkp bundle import` as programs whose calls are commands, each on
the clone of one device and at most one place outside of it.

* `Cli.runSync`, `Cli.runBundleExport`, `Cli.runBundleImport` : the programs.
* `Cli.answer` : what a command does, with what git and the system choose.
* `Cli.World` : the clones of all devices and the places between them; `Cli.Exec` : a command of a
  device in the world.
* `Cli.plainAnswer` : such a command when nothing goes wrong.
-/

namespace Wkp

open Rust Git

namespace Cli

/-! ### The programs -/

/-- The commands of a sync. -/
inductive Cmd
  | fetch (remote : RemoteName)
  | deviceId
  | ensureDeviceBranch (deviceId : Str)
  | checkoutBranch (name : Str)
  | currentCommit
  | remoteBranchExists (remote : RemoteName) (name : Str)
  | localBranchExists (name : Str)
  | forEachRef (start : Str)
  | mergeBranch (ref : Str)
  | resolveModifyDeleteConflicts
  | finishMerge
  | commitsBetween (since : Commit) (until_ : Str)
  | isMergeCommit (commit : Commit)
  | signerForCommit (commit : Commit)
  | pushBranch (remote : RemoteName) (name : Str)
  | bundleCreate (file : Str) (names : List Str) (since : Option Str)
  | bundleVerify (file : Str)
  | bundleFetch (file : Str)
  /-- Anything else that people and programs do with the clone. -/
  | work
  /-- Anything else that lands on a remote. -/
  | land (remote : RemoteName)
  deriving DecidableEq

/-- What a command returns when it succeeds. -/
abbrev Cmd.Result : Cmd → Type
  | deviceId => Str
  | currentCommit => Commit
  | remoteBranchExists _ _ | localBranchExists _ | mergeBranch _ | isMergeCommit _ => Bool
  | forEachRef _ => List Str
  | commitsBetween _ _ => List Commit
  | signerForCommit _ => Option (Str × SignerRole)
  | _ => Unit

/-- What a command returns. -/
abbrev Cmd.Reply (c : Cmd) : Type := Except Str c.Result

/-- A program of commands. -/
abbrev Commands (α : Type) := Script Cmd.Reply Str α

/-- Run a command, and stop if it fails. -/
def run (c : Cmd) : Commands c.Result := ExceptT.mk (Program.perform c)

/-- How git prints a commit. -/
structure Naming where
  /-- Its hash. -/
  sha : Commit → Str
  /-- The first line of its message. -/
  subject : Commit → Str

/-- A commit in the report. -/
def Naming.entry (names : Naming) (c : Commit) : Str :=
  (names.sha c).take 12 ++ ' ' :: names.subject c

/-- What a sync did. -/
structure SyncSummary where
  /-- The remote. -/
  remote : Str
  /-- The branches that were merged. -/
  merged : List Str
  /-- The branch that was pushed. -/
  pushedBranch : Str
  /-- The new commits that nobody who is known has signed. -/
  unsignedOrUnknown : List Str
  deriving DecidableEq

/-- Merge one branch into the one that is checked out. -/
def mergeOne (ref : Str) : Commands Str := do
  let clean ← run (.mergeBranch ref)
  if clean then return ref
  else
    run .resolveModifyDeleteConflicts
    run .finishMerge
    return ref

/-- Merge the branches into the one that is checked out, in order. -/
def mergeAll : List Str → Commands (List Str)
  | [] => return []
  | ref :: refs => do
    let merged ← mergeOne ref
    let rest ← mergeAll refs
    return merged :: rest

/-- The commits of a list that nobody who is known has signed, merges apart. -/
def flagUnsigned (names : Naming) : List Commit → Commands (List Str)
  | [] => return []
  | c :: cs => do
    let isMerge ← run (.isMergeCommit c)
    if isMerge then flagUnsigned names cs
    else
      let signer ← run (.signerForCommit c)
      let rest ← flagUnsigned names cs
      if signer.isNone then return names.entry c :: rest
      else return rest

/-- The new commits of a branch that nobody who is known has signed. -/
def reportUnsignedOrUnknownCommits (names : Naming) (since : Commit) (until_ : Str) :
    Commands (List Str) := do
  let commits ← run (.commitsBetween since until_)
  flagUnsigned names commits

/-- Check out the branch of the device, which is made unless it is there. -/
def checkoutOwnBranch : Commands Str := do
  let deviceId ← run .deviceId
  run (.ensureDeviceBranch deviceId)
  run (.checkoutBranch (deviceBranchName deviceId))
  return deviceId

/-- `wkp sync`. -/
def runSync (names : Naming) (remote : RemoteName) : Commands SyncSummary := do
  run (.fetch remote)
  let deviceId ← checkoutOwnBranch
  let beforeTip ← run .currentCommit
  let hasMain ← run (.remoteBranchExists remote "main".toList)
  let printed ← run (.forEachRef (trackingName remote.name "sync/".toList))
  let main := if hasMain then [trackingName remote.name "main".toList] else []
  let merged ← mergeAll (main ++ otherDeviceSyncRefs remote.name deviceId printed)
  let unsignedOrUnknown ← reportUnsignedOrUnknownCommits names beforeTip (deviceBranchName deviceId)
  run (.pushBranch remote (deviceBranchName deviceId))
  return ⟨remote.name, merged, deviceBranchName deviceId, unsignedOrUnknown⟩

/-- `wkp bundle export`: the branches that were written to the bundle. -/
def runBundleExport (file : Str) (since : Option Str) : Commands (List Str) := do
  let deviceId ← run .deviceId
  let hasMain ← run (.localBranchExists "main".toList)
  let names := deviceBranchName deviceId :: if hasMain then ["main".toList] else []
  run (.bundleCreate file names since)
  return names

/-- `wkp bundle import`: the branches that were merged. -/
def runBundleImport (file : Str) : Commands (List Str) := do
  run (.bundleVerify file)
  run (.bundleFetch file)
  let deviceId ← checkoutOwnBranch
  let printed ← run (.forEachRef (trackingName bundleName.name []))
  let ownRef := fullName (trackingName bundleName.name (deviceBranchName deviceId))
  mergeAll ((refsMatching (printed.map fullName)).filter (· ≠ ownRef))

/-! ### The commands -/

/-- What git and the system choose when a command runs. -/
structure Choices where
  /-- Why the command fails before it does anything, if it does. -/
  fault : Option Str
  /-- The machine. -/
  host : Host
  /-- The paths that git ignores. -/
  ignored : Repo → Str → Bool
  /-- What git says about the repository. -/
  view : View
  /-- The tables of characters. -/
  tables : CharTables
  /-- The clock. -/
  clock : ℕ → ℕ
  /-- A new name for the device. -/
  generated : Except Str Str
  /-- How a merge goes about the commits. -/
  kind : MergeKind
  /-- What a merge does to the files. -/
  files : AList fun _ : Str => FileMerge
  /-- The commit that a revision stands for. -/
  revision : Option Commit
  /-- The order in which git lists commits. -/
  log : List Commit
  /-- The clone after something else was done with it. -/
  worked : Clone
  /-- The branches of a remote after something else landed there. -/
  landed : Refs

/-- The branch to merge. -/
def Choices.incoming (e : Choices) (ref : Str) (commit : Commit) : Incoming :=
  ⟨ref, commit, e.kind, e.files⟩

/-- The outcome of a command, and the clone and the place afterwards. -/
abbrev Outcome (c : Cmd) := c.Reply × Clone × Refs

/-- A command that may fail before it does anything. -/
def Choices.unless {α : Type} (e : Choices) (s : Clone × Refs) (next : Except Str α × Clone × Refs) :
    Except Str α × Clone × Refs :=
  match e.fault with
  | some error => (.error error, s)
  | none => next

/-- A command on the branches of a clone. -/
def onBranches {α : Type} (m : Effect Branches Str α) (s : Clone × Refs) :
    Except Str α × Clone × Refs :=
  let (result, branches) := Effect.exec m s.1.branches
  (result, { s.1 with branches }, s.2)

/-- The place gets other branches, unless that fails. -/
def put (s : Clone × Refs) : Except Str Refs → Except Str Unit × Clone × Refs
  | .ok heads => (.ok (), s.1, heads)
  | .error error => (.error error, s)

/-- What a command does to a clone and a place. -/
def answer (e : Choices) (s : Clone × Refs) : (c : Cmd) → Outcome c
  | .fetch remote => e.unless s (.ok (), s.1.fetch remote s.2, s.2)
  | .deviceId => onBranches (onRepo (Git.deviceId e.host e.generated)) s
  | .ensureDeviceBranch deviceId => onBranches (Git.ensureDeviceBranch e.host deviceId) s
  | .checkoutBranch name => onBranches (checkout e.host e.ignored (.branch name)) s
  | .currentCommit => e.unless s (match s.1.branches.repo.head with
      | some commit => (.ok commit, s)
      | none => (.error "fatal: ambiguous argument 'HEAD'".toList, s))
  -- a command that fails is an answer of no
  | .remoteBranchExists remote name =>
    (.ok (e.fault.isNone && (s.1.remotes.lookup (trackingName remote.name name)).isSome), s)
  | .localBranchExists name => (.ok (e.fault.isNone && (s.1.branches.tip name).isSome), s)
  | .forEachRef start => e.unless s (.ok (s.1.forEachRef start), s)
  | .mergeBranch ref => e.unless s (match s.1.revParse ref with
      | none => (.ok false, s)
      | some commit => onBranches
          (onRepo (mergeBranch e.host.filters (mergeDriver e.tables) (e.incoming ref commit))) s)
  | .resolveModifyDeleteConflicts => onBranches (onRepo do
      let _ ← resolveModifyDeleteConflicts e.tables e.host.filters e.view e.clock) s
  | .finishMerge => e.unless s (onBranches (onRepo finishMerge) s)
  | .commitsBetween _ _ => e.unless s (.ok e.log, s)
  | .isMergeCommit commit => e.unless s (.ok (1 < commit.parents.length), s)
  | .signerForCommit commit =>
    (.ok (if e.fault.isNone then parseSignerLine (printSigner (some commit)) else none), s)
  | .pushBranch _ name => e.unless s (put s (push s.1 name s.2))
  | .bundleCreate _ names since => e.unless s (match since, e.revision with
      | none, _ => put s (bundleCreate s.1 names none)
      | some _, some commit => put s (bundleCreate s.1 names (some commit))
      | some _, none => (.error "fatal: bad revision".toList, s))
  | .bundleVerify _ => e.unless s (.ok (), s)
  | .bundleFetch _ => e.unless s ((s.1.bundleFetch s.2).1, (s.1.bundleFetch s.2).2, s.2)
  | .work => (.ok (), e.worked, s.2)
  | .land _ => (.ok (), s.1, e.landed)

/-- The choices are those of a git that knows the history, and of work that keeps it. -/
def Choices.Sensible (e : Choices) (s : Clone × Refs) : Cmd → Prop
  | .mergeBranch ref => ∀ commit ∈ s.1.revParse ref, Fits (e.incoming ref commit) s.1.branches.repo
  | .commitsBetween since until_ => ∀ c, c ∈ e.log ↔
      c ∈ history (s.1.branches.tip until_) ∧ ¬ History.IsAncestor c since
  | .work => s.1.branches.Grows e.worked.branches ∧ e.worked.remotes = s.1.remotes
  | .land _ => ∀ deviceId,
      e.landed.lookup (deviceBranchName deviceId) = s.2.lookup (deviceBranchName deviceId)
  | _ => True

/-! ### The world -/

/-- The clones of the devices, and the branches at the places between them. -/
structure World (ι π : Type) where
  /-- The clone of a device. -/
  clone : ι → Clone
  /-- The branches on a remote or in a bundle. -/
  place : π → Refs

/-- What the devices know each other by. -/
structure Network (ι π : Type) where
  /-- Where a remote of a device is. -/
  remote : ι → Str → π
  /-- Where a file of a device is. -/
  file : ι → Str → π
  /-- A remote is no file. -/
  remote_ne_file : ∀ i r j f, remote i r ≠ file j f
  /-- Whose a name of a device is: no two devices have the same. -/
  owner : Str → ι

variable {ι π : Type}

/-- The place outside of the clone that a command is about. -/
def Network.placeOf (N : Network ι π) (i : ι) : Cmd → Option π
  | .fetch remote | .pushBranch remote _ | .land remote => some (N.remote i remote.name)
  | .bundleCreate file _ _ | .bundleVerify file | .bundleFetch file => some (N.file i file)
  | _ => none

/-- What a command of a device can see. -/
def World.view (w : World ι π) (N : Network ι π) (i : ι) (c : Cmd) : Clone × Refs :=
  (w.clone i, ((N.placeOf i c).map w.place).getD ∅)

variable [DecidableEq ι] [DecidableEq π]

/-- The world after a command of a device. -/
def World.settle (w : World ι π) (N : Network ι π) (i : ι) (c : Cmd) (s : Clone × Refs) :
    World ι π where
  clone := Function.update w.clone i s.1
  place := match N.placeOf i c with
    | none => w.place
    | some p => Function.update w.place p s.2

/-- A command of a device. -/
def Exec (N : Network ι π) (w : World ι π) (e : ι × Program.Exchange Cmd.Reply) (w' : World ι π) :
    Prop :=
  ∃ choices : Choices, choices.Sensible (w.view N e.1 e.2.1) e.2.1 ∧
    (answer choices (w.view N e.1 e.2.1) e.2.1).1 = e.2.2 ∧
    w' = w.settle N e.1 e.2.1 (answer choices (w.view N e.1 e.2.1) e.2.1).2 ∧
    -- a device takes no name that another has
    ∀ deviceId, e.2 = ⟨.deviceId, .ok deviceId⟩ → N.owner deviceId = e.1

/-! ### When nothing goes wrong -/

/-- How a merge goes about the commits. -/
def plainKind (c : Clone) : Cmd → MergeKind
  | .mergeBranch ref => match c.revParse ref with
    | none => .refused
    | some commit =>
      if InHead c.branches.repo.head commit then .upToDate
      else if forwards c.branches.repo.head commit then .fastForward
      else .threeWay
  | _ => .refused

/-- The commits that git lists. -/
def plainLog (c : Clone) : Cmd → List Commit
  | .commitsBetween since until_ => ((c.branches.tip until_).toList.flatMap commitsOf).filter
      fun x => ¬ History.IsAncestor x since
  | _ => []

/-- What git and the system choose when nothing goes wrong and no file is merged. -/
def Choices.plain (s : Clone × Refs) (c : Cmd) : Choices where
  fault := none
  host := plainHost
  ignored _ _ := false
  view := exampleView
  tables := .asciiOnly
  clock _ := 0
  generated := .error "No such file or directory (os error 2)".toList
  kind := plainKind s.1 c
  files := ∅
  revision := none
  log := plainLog s.1 c
  worked := s.1
  landed := s.2

theorem sensible_plain (s : Clone × Refs) (c : Cmd) : (Choices.plain s c).Sensible s c := by
  cases c with
  | mergeBranch ref =>
    intro commit hcommit
    have hkind : plainKind s.1 (.mergeBranch ref) =
        if InHead s.1.branches.repo.head commit then .upToDate
        else if forwards s.1.branches.repo.head commit then .fastForward else .threeWay := by
      rw [plainKind, hcommit]
    constructor
    · intro h
      replace h := hkind.symm.trans h
      split_ifs at h with hin
      exact hin
    · intro h
      replace h := hkind.symm.trans h
      split_ifs at h with hin hforwards
      exact of_decide_eq_true hforwards
  | commitsBetween since until_ =>
    intro c
    simp [Choices.plain, plainLog, history, mem_commitsOf]
  | work => exact ⟨.refl _, rfl⟩
  | land remote => exact fun _ => rfl
  | _ => trivial

/-- A command of a device when nothing goes wrong. -/
def plainAnswer (N : Network ι π) (i : ι) (w : World ι π) (c : Cmd) : c.Reply × World ι π :=
  let (r, s) := answer (.plain (w.view N i c) c) (w.view N i c) c
  (r, w.settle N i c s)

/-- The device gets no name that another has. -/
def namesOwn (N : Network ι π) (i : ι) : (c : Cmd) → c.Reply → Bool
  | .deviceId, .ok deviceId => N.owner deviceId = i
  | _, _ => true

theorem exec_plain {N : Network ι π} {i : ι} {w : World ι π} {c : Cmd}
    (h : namesOwn N i c (plainAnswer N i w c).1 = true) :
    Exec N w (i, ⟨c, (plainAnswer N i w c).1⟩) (plainAnswer N i w c).2 := by
  refine ⟨.plain (w.view N i c) c, sensible_plain _ _, rfl, rfl, fun deviceId hid => ?_⟩
  cases c with
  | deviceId =>
    obtain ⟨-, hid⟩ := Sigma.mk.inj hid
    rw [eq_of_heq hid] at h
    exact of_decide_eq_true h
  | _ => cases hid

end Cli

end Wkp
