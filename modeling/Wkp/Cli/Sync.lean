import Wkp.Cli.Filter
import Wkp.Cli.Remember
import Wkp.Core.Merge
import Wkp.Git.Remote

/-!
# Sync

* `Cli.runMergeDriver` : the merge driver on the three files that git hands it.
* `Cli.resolveModifyDeleteConflicts`, `Cli.mergeRefsIntoCurrentBranch` : the merge loop of a sync.
* `Cli.runSyncStatus` : the conflicts that are reported.
-/

namespace Wkp

open Rust Merge

namespace Cli

/-! ### The merge driver -/

/-- `wkp merge-driver ancestor ours theirs`: the merge replaces the file of ours. -/
def runMergeDriver (T : CharTables) (files : Files) (ancestor ours theirs : Str) :
    Except Str Files := do
  let baseContent ← (files.readToString ancestor).mapError fun e =>
    "reading ancestor file ".toList ++ ancestor ++ ": ".toList ++ e
  let oursContent ← (files.readToString ours).mapError fun e =>
    "reading ours file ".toList ++ ours ++ ": ".toList ++ e
  let theirsContent ← (files.readToString theirs).mapError fun e =>
    "reading theirs file ".toList ++ theirs ++ ": ".toList ++ e
  return files.insert ours (.text (merge T baseContent oursContent theirsContent))

/-- The three temporary files that git writes for a driver. -/
def driverFiles (base ours theirs : Content) : Files :=
  ((AList.singleton "%O".toList base).insert "%A".toList ours).insert "%B".toList theirs

/-- The driver as git runs it: what it leaves in the file of ours. -/
def mergeDriver (T : CharTables) : Git.Driver := fun base ours theirs =>
  match runMergeDriver T (driverFiles base ours theirs) "%O".toList "%A".toList "%B".toList with
  | .error _ => none
  | .ok files => files.lookup "%A".toList

/-! ### The loop -/

section Loop

variable (T : CharTables) (F : Git.Filters) (V : Git.View)

/-- The conflicts of modify/delete kind, with the side that deleted. -/
def modifyDeleteConflicts (r : Git.Repo) : List (Str × Git.DeletedBy) :=
  (Git.conflicts F V r).filterMap fun c => match c.kind with
    | .modifyDelete deletedBy => some (c.path, deletedBy)
    | _ => none

/-- The title of the note about a deletion that did not happen. -/
def deletionTitle (path : Str) : Str :=
  "deletion of ".toList ++ path ++ " needs confirmation".toList

/-- The side that deleted, in the words of the note. -/
def deleter : Git.DeletedBy → Str
  | .ours => "our side".toList
  | .theirs => "the other side".toList

/-- Whose modification survived, in the words of the note. -/
def survivor : Git.DeletedBy → Str
  | .ours => "the other side's".toList
  | .theirs => "our".toList

/-- The note about a deletion that did not happen. -/
def deletionNote (path : Str) (deletedBy : Git.DeletedBy) : Str :=
  rememberFrontmatterBlock T (deletionTitle path) "project-state".toList none
      "agent:wkp-merge-resolver".toList none ++
    ("\n`".toList ++ path ++ "` was deleted by ".toList ++ deleter deletedBy ++
      " during a sync merge, but ".toList ++ survivor deletedBy ++
      " modification survived and was kept in place (design ".toList ++
      "6.2: a deletion always loses to a modification). Confirm ".toList ++
      "whether `".toList ++ path ++ "` should still be deleted.\n".toList)

/-- The path of the note, with the nanoseconds of the clock in it. -/
def notePath (path : Str) (nanos : ℕ) : Str :=
  "inbox/".toList ++ slugify (deletionTitle path) ++
    '-' :: (Frontmatter.decimal nanos ++ ".md".toList)

/-- Write a file under `inbox/`, which must not be a file itself. -/
def writeInboxFile (path : Str) (text : Str) : Effect Git.Repo Str Unit := do
  let r ← get
  if "inbox".toList ∈ r.worktree then throw "File exists (os error 17)".toList
  else set { r with worktree := r.worktree.insert path (.text text) }

/-- Keep the modification, and leave a note about the deletion. -/
def resolveConflict (nanos : ℕ) (conflict : Str × Git.DeletedBy) : Effect Git.Repo Str Str := do
  let r ← get
  Git.stagePath F (V.ignored r) conflict.1
  writeInboxFile (notePath conflict.1 nanos) (deletionNote T conflict.1 conflict.2)
  let r ← get
  Git.stagePath F (V.ignored r) (notePath conflict.1 nanos)
  return notePath conflict.1 nanos

/-- Keep the modification at every path that one side deleted and the other modified. -/
def resolveModifyDeleteConflicts (clock : ℕ → ℕ) : Effect Git.Repo Str (List Str) := do
  let r ← get
  (modifyDeleteConflicts F V r).zipIdx.mapM fun c => resolveConflict T F V (clock c.2) c.1

/-- Finish a merge that did not complete. -/
def resolveAndFinish (clock : ℕ → ℕ) : Effect Git.Repo Str Unit := do
  let _ ← resolveModifyDeleteConflicts T F V clock
  Git.finishMerge

/-- Merge one branch. -/
def mergeRef (m : Git.Incoming × (ℕ → ℕ)) : Effect Git.Repo Str Str := do
  let clean ← Git.mergeBranch F (mergeDriver T) m.1
  if clean then return m.1.ref
  else
    resolveAndFinish T F V m.2
    return m.1.ref

/-- Merge each branch into the current one, in order; the clock is read during each merge. -/
def mergeRefsIntoCurrentBranch (refs : List (Git.Incoming × (ℕ → ℕ))) :
    Effect Git.Repo Str (List Str) :=
  refs.mapM (mergeRef T F V)

/-- `wkp sync status`. -/
def runSyncStatus (r : Git.Repo) : List Git.Conflict := Git.conflicts F V r

end Loop

/-! ### The conflicts of the loop -/

section Conflicts

variable {F : Git.Filters} {V : Git.View} {r : Git.Repo}

theorem mem_modifyDeleteConflicts {c : Str × Git.DeletedBy} :
    c ∈ modifyDeleteConflicts F V r ↔ ∃ p stages, r.index.lookup p = some (.unmerged stages) ∧
      Git.stagesKind stages = .modifyDelete c.2 ∧ Git.quotePath p = c.1 := by
  obtain ⟨path, deletedBy⟩ := c
  rw [modifyDeleteConflicts, List.mem_filterMap]
  constructor
  · rintro ⟨conflict, hconflict, hkind⟩
    obtain ⟨p, stages, hstages, rfl⟩ := (Git.mem_conflicts F V r).1 hconflict
    dsimp only at hkind
    split at hkind
    · rename_i by' hmd
      obtain ⟨rfl, rfl⟩ := Prod.mk.inj (Option.some.inj hkind)
      exact ⟨p, stages, hstages, hmd, rfl⟩
    · cases hkind
  · rintro ⟨p, stages, hstages, hkind, hpath⟩
    refine ⟨_, (Git.mem_conflicts F V r).2 ⟨p, stages, hstages, rfl⟩, ?_⟩
    dsimp only at hkind hpath ⊢
    rw [hkind, hpath]

end Conflicts

theorem head?_deletionNote (T : CharTables) (path : Str) (deletedBy : Git.DeletedBy) :
    (deletionNote T path deletedBy).head? = some '-' := by
  unfold deletionNote
  rw [List.head?_append, head?_rememberFrontmatterBlock, Option.some_or]

/-! ### What the driver makes -/

theorem mergeDriver_text (T : CharTables) (base ours theirs : Str) :
    mergeDriver T (.text base) (.text ours) (.text theirs) =
      some (.text (merge T base ours theirs)) := rfl

theorem mergeDriver_eq_some {T : CharTables} {base ours theirs merged : Content} :
    mergeDriver T base ours theirs = some merged ↔ ∃ b o t, base = .text b ∧ ours = .text o ∧
      theirs = .text t ∧ merged = .text (merge T b o t) := by
  constructor
  · intro h
    rcases base with b | b <;> rcases ours with o | o <;> rcases theirs with t | t <;>
      first
      | exact ⟨b, o, t, rfl, rfl, rfl, (Option.some.inj h).symm⟩
      | cases h
  · rintro ⟨b, o, t, rfl, rfl, rfl, rfl⟩
    exact mergeDriver_text T b o t

end Cli

end Wkp
