import Wkp.Git.Status
import Wkp.Lib.Effect
import Wkp.Lib.History

/-!
# Repositories

The state of a repository as the commands of wkp see it: its commits, its index and its worktree.

* `Git.Repo` : the state; `Git.Repo.statusRecords` : what the status says of it.
* `Git.detectChanges`, `Git.listTrackedFiles`, `Git.conflicts` : what wkp reads of it.
* `Git.lastSignerForPath` : the signer of the last commit that touched a path.
-/

namespace Wkp

open Rust

namespace Git

/-! ### Commits and their signers -/

/-- A signature as `git log` prints it: the letter of its validity, and its principal. -/
structure Signature where
  /-- `%G?`. -/
  validity : Str
  /-- `%GS`. -/
  signer : Str
  deriving DecidableEq, Repr

/-- The signature of a commit without one. -/
def unsigned : Signature := ⟨"N".toList, []⟩

/-- A commit: its tree and its signature, on top of the commits before it. -/
abbrev Commit := History Files Signature

/-- The role that a principal names. -/
inductive SignerRole
  | human | agent | other
  deriving DecidableEq, Repr

/-- `SignerRole::from_principal`. -/
def SignerRole.fromPrincipal (principal : Str) : SignerRole :=
  if "human:".toList.isPrefixOf principal then human
  else if "agent:".toList.isPrefixOf principal then agent
  else other

/-- A line of `git log --format=%G?%x09%GS`. -/
def parseSignerLine (output : Str) : Option (Str × SignerRole) :=
  let fields := splitn '\t' 2 (output.rdropWhile (· = '\n'))
  let validity := (fields[0]?).getD []
  let signer := (fields[1]?).getD []
  if validity = ['G'] ∧ signer ≠ [] then some (signer, .fromPrincipal signer) else none

/-- The last commit that touched a path. -/
def lastCommit (head : Option Commit) (path : Str) : Option Commit :=
  head.bind (History.lastTouch (AList.lookup path))

/-- The output of `git log -1 --format=%G?%x09%GS -- path`. -/
def printSigner (commit : Option Commit) : Str :=
  match commit with
  | none => []
  | some c => c.label.validity ++ '\t' :: (c.label.signer ++ ['\n'])

/-- The principal that signed the last commit that touched a path. -/
def lastSignerForPath (head : Option Commit) (path : Str) : Option (Str × SignerRole) :=
  parseSignerLine (printSigner (lastCommit head path))

/-! ### The state -/

/-- The versions of a path that is left unmerged: at least one. -/
structure Stages where
  /-- The common ancestor. -/
  base : Option Content
  /-- Ours. -/
  ours : Option Content
  /-- Theirs. -/
  theirs : Option Content
  /-- Not all of them are missing. -/
  present : base.isSome ∨ ours.isSome ∨ theirs.isSome
  deriving DecidableEq

/-- What the index holds at a path. -/
inductive IndexEntry
  | staged (blob : Content)
  | unmerged (stages : Stages)
  deriving DecidableEq

/-- The filters that git runs between the worktree and the index, on a path and what it holds;
`clean` also reads the other files of the store. -/
structure Filters where
  /-- What is stored for a file, or why nothing can be. -/
  clean : Files → Str → Content → Except Str Content
  /-- What is checked out for a stored content. -/
  smudge : Str → Content → Content

/-- A repository. -/
structure Repo where
  /-- The commit that is checked out, if there is one. -/
  head : Option Commit
  /-- The index. -/
  index : AList fun _ : Str => IndexEntry
  /-- The files. -/
  worktree : Files
  /-- The commit of an unfinished merge. -/
  mergeHead : Option Commit := none
  /-- Directories, besides those that hold files. -/
  dirs : List Str := []
  /-- The files elsewhere on the disk, by the names on the way to them. -/
  outside : AList fun _ : List Str => Content := ∅
  /-- Directories elsewhere, besides those that hold files or lead here. -/
  outsideDirs : List (List Str) := []

namespace Repo

variable (F : Filters) (r : Repo)

/-- The tree of the commit that is checked out. -/
def headTree : Files := (r.head.map History.tree).getD ∅

/-- The staged content of a path. -/
def stagedAt (path : Str) : Option Content :=
  match r.index.lookup path with
  | some (.staged blob) => some blob
  | _ => none

/-- The path is left unmerged. -/
def IsUnmerged (path : Str) : Prop := ∃ stages, r.index.lookup path = some (.unmerged stages)

/-- The difference between two versions of a path. -/
def diffCode (old new : Option Content) : Code :=
  match old, new with
  | none, none => .unmodified
  | none, some _ => .added
  | some _, none => .deleted
  | some o, some n => if o = n then .unmodified else .modified

/-- The index against `HEAD`. -/
def stagedCode (path : Str) : Code := diffCode (r.headTree.lookup path) (r.stagedAt path)

/-- The worktree against what the index would check out. -/
def worktreeCode (path : Str) : Code :=
  match r.stagedAt path with
  | none => .unmodified
  | some blob => diffCode (some (F.smudge path blob)) (r.worktree.lookup path)

/-- Which sides of a path left unmerged are there. -/
def stagesCodes (s : Stages) : Code × Code :=
  match s.base.isSome, s.ours.isSome, s.theirs.isSome with
  | true, true, true => (.unmerged, .unmerged)
  | true, true, false => (.unmerged, .deleted)
  | true, false, true => (.deleted, .unmerged)
  | false, true, true => (.added, .added)
  | false, true, false => (.added, .unmerged)
  | false, false, true => (.unmerged, .added)
  | _, false, false => (.deleted, .deleted)

/-- Which of the staged new paths git takes for renames of deleted ones. -/
structure Pairing where
  /-- The pairs of an old and a new path. -/
  pairs : List Renamed
  /-- The old paths are deleted. -/
  deleted : ∀ p ∈ pairs, r.stagedCode p.source = .deleted
  /-- The new paths are added. -/
  added : ∀ p ∈ pairs, r.stagedCode p.target = .added
  /-- An old path that is left unmerged is not deleted. -/
  merged : ∀ p ∈ pairs, ¬ r.IsUnmerged p.source
  /-- No new path is paired twice. -/
  nodup : (pairs.map Renamed.target).Nodup

/-- The tracked paths, those of `HEAD` among them. -/
def trackedPaths : List Str :=
  sortPaths (r.index.keys ++ r.headTree.keys.filter fun p => p ∉ r.index.keys)

/-- The paths in the worktree that are neither tracked nor ignored. -/
def untrackedPaths (ignored : Str → Bool) : List Str :=
  sortPaths (r.worktree.keys.filter fun p => p ∉ r.index.keys ∧ ignored p = false)

/-- The words that the status prints about a path and that its readers skip. -/
abbrev Words := Str → ℕ → Word

/-- The first fields of a path. -/
def fields (words : Words) (path : Str) (n : ℕ) : List.Vector Word n :=
  .ofFn fun i => words path i

/-- The record of a tracked path that is changed, unless it is unmerged. -/
def changedRecord (words : Words) (pairing : r.Pairing) (path : Str) : Option Record :=
  match r.index.lookup path with
  | some (.unmerged _) => none
  | _ =>
    match pairing.pairs.find? (·.target = path) with
    | some p => some (.renamed .renamed (r.worktreeCode F path) (fields words path 7) path p.source)
    | none =>
      if path ∈ pairing.pairs.map Renamed.source then none
      else if r.stagedCode path = .unmodified ∧ r.worktreeCode F path = .unmodified then none
      else some (.ordinary (r.stagedCode path) (r.worktreeCode F path) (fields words path 6) path)

/-- The record of a path that is left unmerged. -/
def unmergedRecord (words : Words) (path : Str) : Option Record :=
  match r.index.lookup path with
  | some (.unmerged stages) => some
    (.unmerged (stagesCodes stages).1 (stagesCodes stages).2 (fields words path 8) path)
  | _ => none

/-- The records of the tracked paths. -/
def trackedRecords (words : Words) (pairing : r.Pairing) : List Record :=
  r.trackedPaths.filterMap (r.changedRecord F words pairing) ++
    r.trackedPaths.filterMap (r.unmergedRecord words)

/-- The records of `git status --untracked-files=all`. -/
def statusRecords (words : Words) (pairing : r.Pairing) (ignored : Str → Bool) : List Record :=
  r.trackedRecords F words pairing ++ (r.untrackedPaths ignored).map .untracked

/-- A content at a path, or none. -/
def setAt {β : Type} (l : AList fun _ : Str => β) (path : Str) : Option β → AList fun _ : Str => β
  | none => l.erase path
  | some b => l.insert path b

/-- Some path is left unmerged. -/
def hasUnmerged : Bool := r.index.entries.any fun e => e.2 matches .unmerged _

/-- The staged entries, as a tree. -/
def stagedEntry (e : Sigma fun _ : Str => IndexEntry) : Option (Sigma fun _ : Str => Content) :=
  match e.2 with
  | .staged blob => some ⟨e.1, blob⟩
  | .unmerged _ => none

theorem keys_filterMap_stagedEntry (l : List (Sigma fun _ : Str => IndexEntry)) :
    (l.filterMap stagedEntry).keys.Sublist l.keys := by
  induction l with
  | nil => exact .slnil
  | cons e l ih =>
    obtain ⟨p, blob | stages⟩ := e
    · exact ih.cons_cons p
    · exact ih.cons p

/-- The tree that the index would be committed as. -/
def indexTree : Files :=
  ⟨r.index.entries.filterMap stagedEntry,
    List.Nodup.sublist (keys_filterMap_stagedEntry r.index.entries) r.index.nodupKeys⟩

/-! ### Lookups -/

theorem lookup_setAt {β : Type} (l : AList fun _ : Str => β) (path p : Str) (o : Option β) :
    (setAt l path o).lookup p = if p = path then o else l.lookup p := by
  split_ifs with h
  · subst h
    cases o with
    | none => exact AList.lookup_erase _ _
    | some b => exact AList.lookup_insert _
  · cases o with
    | none => exact AList.lookup_erase_ne h
    | some b => exact AList.lookup_insert_ne h

theorem hasUnmerged_iff : r.hasUnmerged = true ↔ ∃ p, r.IsUnmerged p := by
  rw [hasUnmerged, List.any_eq_true]
  constructor
  · rintro ⟨⟨p, blob | stages⟩, he, hm⟩
    · cases hm
    · exact ⟨p, stages, AList.mem_lookup_iff.2 he⟩
  · rintro ⟨p, stages, hp⟩
    exact ⟨⟨p, .unmerged stages⟩, AList.mem_lookup_iff.1 hp, rfl⟩

theorem stagedAt_eq_some {p : Str} {blob : Content} :
    r.stagedAt p = some blob ↔ r.index.lookup p = some (.staged blob) := by
  rw [stagedAt]
  rcases r.index.lookup p with _ | _ | _ <;> simp

theorem lookup_indexTree (p : Str) : r.indexTree.lookup p = r.stagedAt p := by
  ext blob
  rw [← Option.mem_def, AList.mem_lookup_iff, stagedAt_eq_some, ← Option.mem_def,
    AList.mem_lookup_iff, indexTree, List.mem_filterMap]
  constructor
  · rintro ⟨⟨q, b | stages⟩, he, heq⟩
    · obtain ⟨rfl, hb⟩ := Sigma.mk.inj (Option.some.inj heq)
      obtain rfl := eq_of_heq hb
      exact he
    · cases heq
  · exact fun h => ⟨_, h, rfl⟩

theorem mem_trackedPaths {p : Str} : p ∈ r.trackedPaths ↔ p ∈ r.index ∨ p ∈ r.headTree := by
  rw [trackedPaths, mem_sortPaths, List.mem_append, List.mem_filter, decide_eq_true_iff,
    AList.mem_keys, AList.mem_keys]
  tauto

theorem nodup_trackedPaths : r.trackedPaths.Nodup := by
  rw [trackedPaths, sortPaths, (List.mergeSort_perm _ _).nodup_iff]
  refine List.Nodup.append r.index.keys_nodup (r.headTree.keys_nodup.filter _) ?_
  intro p hindex hhead
  exact of_decide_eq_true (List.mem_filter.1 hhead).2 hindex

variable {r F}

theorem conflict_of_changedRecord {words : Words} {pairing : r.Pairing} {p : Str} {record : Record}
    (h : r.changedRecord F words pairing p = some record) : record.conflict = none := by
  unfold changedRecord at h
  split at h
  · cases h
  · split at h
    · rw [← Option.some.inj h]
      rfl
    · split_ifs at h
      rw [← Option.some.inj h]
      rfl

theorem unmergedRecord_eq_some {words : Words} {p : Str} {record : Record} :
    r.unmergedRecord words p = some record ↔ ∃ stages,
      r.index.lookup p = some (.unmerged stages) ∧
        record = .unmerged (stagesCodes stages).1 (stagesCodes stages).2 (fields words p 8) p := by
  rw [unmergedRecord]
  rcases r.index.lookup p with _ | _ | stages <;> simp [eq_comm]

end Repo

/-! ### What wkp reads -/

/-- What git says about a repository beyond what its state settles. -/
structure View where
  /-- The words of status records. -/
  words : Repo.Words
  /-- The renames it finds. -/
  pairing : (r : Repo) → r.Pairing
  /-- The paths it ignores. -/
  ignored : Repo → Str → Bool
  /-- The untracked files and directories that a status without `--untracked-files=all` prints. -/
  untracked : Repo → List Str

/-- A view for examples: git pairs no renames, ignores nothing and lists nothing untracked. -/
def exampleView : View where
  words _ _ := ⟨"0".toList, List.forall_mem_singleton.2 (by decide)⟩
  pairing _ := ⟨[], nofun, nofun, nofun, List.nodup_nil⟩
  ignored _ _ := false
  untracked _ := []

section Reads

variable (F : Filters) (V : View) (r : Repo)

/-- Which files changed in the worktree. -/
def detectChanges : ChangeSet :=
  parsePorcelainV2 (printStatus (r.statusRecords F V.words (V.pairing r) (V.ignored r)))

/-- A path once for each of its entries in the index. -/
def entryNames (path : Str) : List Str :=
  match r.index.lookup path with
  | none => []
  | some (.staged _) => [path]
  | some (.unmerged s) => [s.base, s.ours, s.theirs].filterMap fun stage => stage.map fun _ => path

/-- Every path in the index. -/
def listTrackedFiles : List Str :=
  lines (printNames ((sortPaths r.index.keys).flatMap (entryNames r)))

/-- Every path left unmerged. -/
def conflicts : List Conflict :=
  parseConflicts (printStatus (r.trackedRecords F V.words (V.pairing r) ++
    (V.untracked r).map .untracked))

/-- The class of a path left unmerged. -/
def stagesKind (stages : Stages) : ConflictKind :=
  conflictKind (xyText (Repo.stagesCodes stages).1 (Repo.stagesCodes stages).2)

/-- The conflict at a path, if it is left unmerged. -/
def conflictAt (path : Str) : Option Conflict :=
  match r.index.lookup path with
  | some (.unmerged stages) => some ⟨quotePath path, stagesKind stages⟩
  | _ => none

variable {r} in
theorem conflictAt_eq_some {p : Str} {c : Conflict} : conflictAt r p = some c ↔ ∃ stages,
    r.index.lookup p = some (.unmerged stages) ∧ c = ⟨quotePath p, stagesKind stages⟩ := by
  rw [conflictAt]
  rcases r.index.lookup p with _ | _ | stages <;> simp [eq_comm]

theorem conflicts_eq : conflicts F V r = r.trackedPaths.filterMap (conflictAt r) := by
  have hchanged : (r.trackedPaths.filterMap (r.changedRecord F V.words (V.pairing r))).filterMap
      Record.conflict = [] := by
    rw [List.filterMap_eq_nil_iff]
    intro record hr
    obtain ⟨p, -, hp⟩ := List.mem_filterMap.1 hr
    exact Repo.conflict_of_changedRecord hp
  have huntracked : ((V.untracked r).map Record.untracked).filterMap Record.conflict = [] := by
    rw [List.filterMap_eq_nil_iff]
    intro record hr
    obtain ⟨p, -, rfl⟩ := List.mem_map.1 hr
    rfl
  rw [conflicts, parseConflicts_printStatus, Repo.trackedRecords, List.filterMap_append,
    List.filterMap_append, hchanged, huntracked, List.nil_append, List.append_nil,
    List.filterMap_filterMap]
  refine List.filterMap_congr fun p _ => ?_
  rw [Repo.unmergedRecord, conflictAt]
  rcases r.index.lookup p with _ | _ | stages <;> rfl

/-- **The conflicts are the paths left unmerged**, as git prints them. -/
theorem mem_conflicts {c : Conflict} : c ∈ conflicts F V r ↔
    ∃ p stages, r.index.lookup p = some (.unmerged stages) ∧ c = ⟨quotePath p, stagesKind stages⟩ := by
  rw [conflicts_eq, List.mem_filterMap]
  constructor
  · rintro ⟨p, -, hp⟩
    exact ⟨p, conflictAt_eq_some.1 hp⟩
  · rintro ⟨p, stages, hp, hc⟩
    have htracked : p ∈ r.trackedPaths := by
      rw [Repo.mem_trackedPaths]
      exact .inl (AList.lookup_isSome.1 (hp ▸ rfl))
    exact ⟨p, htracked, conflictAt_eq_some.2 ⟨stages, hp, hc⟩⟩

end Reads

/-! ### What wkp writes -/

/-- `git add -- path`. -/
def stagePath (F : Filters) (ignored : Str → Bool) (path : Str) : Effect Repo Str Unit := do
  let r ← get
  match r.worktree.lookup path with
  | some content =>
    if ignored path = true ∧ path ∉ r.index then
      throw ("The following paths are ignored by one of your .gitignore files:\n".toList ++ path)
    else match F.clean r.worktree path content with
      | .error e => throw e
      | .ok blob => set { r with index := r.index.insert path (.staged blob) }
  | none =>
    if path ∈ r.index then set { r with index := r.index.erase path }
    else throw ("fatal: pathspec '".toList ++ path ++ "' did not match any files".toList)

/-- Staging a path changes nothing but the entry of the path, and leaves it merged. -/
theorem exec_stagePath (F : Filters) (ignored : Str → Bool) (path : Str) (r : Repo) :
    (Effect.exec (stagePath F ignored path) r).2 = r ∨ ∃ entry : Option IndexEntry,
      (∀ stages, entry ≠ some (.unmerged stages)) ∧
        (Effect.exec (stagePath F ignored path) r).2 =
          { r with index := Repo.setAt r.index path entry } := by
  rw [stagePath, Effect.exec_bind, Effect.exec_get]
  dsimp only
  split
  · split_ifs
    · exact .inl rfl
    · split
      · exact .inl rfl
      · rename_i content _ blob _
        exact .inr ⟨some (.staged blob), nofun, rfl⟩
  · split_ifs
    · exact .inr ⟨none, nofun, rfl⟩
    · exact .inl rfl

end Git

end Wkp
