import Wkp.Cli.Inverse
import Wkp.Hub.TenantRepo

/-!
# The index that is published

* `Hub.Publishes` : the index of a tree has one row for each shared markdown file, and no others.
* `Hub.SameShared` : two trees that differ in private and encrypted files only.
* `Hub.publishes_shared` : **an index publishes the shared files of its tree, and is the same for trees
  that differ in the others only.**
-/

namespace Wkp

open Rust

namespace Hub

/-- A markdown file of the tree that is shared. -/
def SharedAt (tree : Files) (path : Str) : Prop :=
  ".md".toList.isSuffixOf path = true ∧ ∃ blob, tree.lookup path = some blob ∧ Shared blob

/-- The rows of the index about a path. -/
def rowsOf (db : Index.Db) (path : Str) : List Index.Row :=
  (db.items.map Prod.snd).filter (·.path = path)

/-- The index has one row for each shared markdown file of the tree, and no others. -/
structure Publishes (tree : Files) (db : Index.Db) : Prop where
  /-- The tables agree row by row. -/
  inStep : Index.InStep db
  /-- A shared file has one row. -/
  one : ∀ path, SharedAt tree path → ∃ row, rowsOf db path = [row]
  /-- No other path has any. -/
  none : ∀ path, ¬ SharedAt tree path → rowsOf db path = []

/-- A blob that is an age ciphertext or parses as private. -/
def Hidden (blob : Content) : Prop :=
  blob.startsWith Crypto.ageHeader = true ∨ Cli.isPrivate blob = true

/-- The trees differ only where both have a ciphertext or a private file. -/
def SameShared (tree tree' : Files) : Prop :=
  ∀ path, tree.lookup path = tree'.lookup path ∨
    ∃ blob blob', tree.lookup path = some blob ∧ tree'.lookup path = some blob' ∧
      Hidden blob ∧ Hidden blob'

/-! ### One row -/

theorem readBlob_some {tree : Files} {path : Str} {blob : Content} :
    Git.readBlob (some tree) path = .ok blob ↔ tree.lookup path = some blob := by
  rw [Git.readBlob, Option.bind_some]
  cases tree.lookup path with
  | none => simp
  | some blob' => simp

theorem listFilesAtRef_some {tree : Files} (h : ∀ path ∈ tree.keys, Git.Unquoted path) :
    Git.listFilesAtRef (some tree) = .ok (Git.sortPaths tree.keys) := by
  have hquote : (Git.sortPaths tree.keys).map Git.quotePath = Git.sortPaths tree.keys :=
    (List.map_congr_left fun p hp => Git.quotePath_of_unquoted (h p (Git.mem_sortPaths.1 hp))).trans
      (List.map_id _)
  rw [Git.listFilesAtRef, Git.lines_printNames, hquote]

theorem publishes {today : ℕ} {tree : Files} {summary : IndexSummary} {db : Index.Db}
    (hpaths : ∀ path ∈ tree.keys, Git.Unquoted path)
    (h : indexTenant today (some tree) = .ok (summary, db)) : Publishes tree db := by
  obtain ⟨hknown, hindexed⟩ := indexTenant_spec h
  have hstep : Index.InStep db := inStep_of_indexTenant h
  have hshared : ∀ path, path ∈ (db.items.map Prod.snd).map Index.Row.path ↔ SharedAt tree path := by
    intro path
    rw [← hstep.map_path]
    refine (hknown path).trans ((hindexed path).trans ?_)
    rw [listFilesAtRef_some hpaths]
    simp only [Except.toOption, Option.getD_some, Git.mem_sortPaths, readBlob_some]
    constructor
    · exact fun h => h.2
    · rintro ⟨hmd, blob, hblob, hshared⟩
      exact ⟨AList.mem_keys.1 (AList.lookup_isSome.1 (by rw [hblob]; rfl)), hmd, blob, hblob, hshared⟩
  refine ⟨hstep, fun path hpath => ?_, fun path hpath => ?_⟩
  · obtain ⟨row, hrow, rfl⟩ := List.mem_map.1 ((hshared path).2 hpath)
    exact ⟨row, Table.Keyed.filter_key hstep.keyed hrow⟩
  · rw [rowsOf, List.filter_eq_nil_iff]
    intro row hrow hkey
    refine hpath ((hshared path).1 ?_)
    rw [← of_decide_eq_true hkey]
    exact List.mem_map_of_mem hrow

/-! ### What does not show -/

theorem indexBlob_of_hidden (acc : Progress) (path : Str) {blob : Content} (h : Hidden blob) :
    indexBlob acc path blob =
      { acc with summary.skippedPrivate := acc.summary.skippedPrivate ++ [path] } := by
  rw [indexBlob]
  by_cases hheader : blob.startsWith Crypto.ageHeader = true
  · rw [if_pos hheader]
  · rw [if_neg hheader]
    have hprivate := h.resolve_left hheader
    rw [Cli.isPrivate] at hprivate
    cases htext : blob.fromUtf8 with
    | none => rw [htext] at hprivate; cases hprivate
    | some text =>
      rw [htext] at hprivate
      exact if_pos (of_decide_eq_true hprivate)

namespace SameShared

variable {tree tree' : Files} (h : SameShared tree tree')
include h

theorem mem_keys_iff (path : Str) : path ∈ tree.keys ↔ path ∈ tree'.keys := by
  rw [← AList.mem_keys, ← AList.mem_keys, ← AList.lookup_isSome, ← AList.lookup_isSome]
  rcases h path with heq | ⟨blob, blob', hblob, hblob', -⟩
  · rw [heq]
  · rw [hblob, hblob', Option.isSome_some, Option.isSome_some]

theorem listFilesAtRef_eq :
    Git.listFilesAtRef (some tree) = Git.listFilesAtRef (some tree') := by
  have hperm : tree.keys.Perm tree'.keys :=
    (List.perm_ext_iff_of_nodup tree.keys_nodup tree'.keys_nodup).2 h.mem_keys_iff
  rw [Git.listFilesAtRef, Git.listFilesAtRef, Git.sortPaths_eq_of_perm hperm]

theorem indexPath_eq (acc : Progress) (path : Str) :
    indexPath (some tree) acc path = indexPath (some tree') acc path := by
  rw [indexPath, indexPath]
  split_ifs
  · rfl
  · rw [Git.readBlob, Git.readBlob, Option.bind_some, Option.bind_some]
    rcases h path with heq | ⟨blob, blob', hblob, hblob', hhidden, hhidden'⟩
    · rw [heq]
    · rw [hblob, hblob']
      exact congrArg Except.ok ((indexBlob_of_hidden acc path hhidden).trans
        (indexBlob_of_hidden acc path hhidden').symm)

/-- Nothing of what a run does depends on them. -/
theorem indexTenant_eq (today : ℕ) :
    indexTenant today (some tree) = indexTenant today (some tree') := by
  rw [indexTenant, indexTenant, h.listFilesAtRef_eq, funext₂ h.indexPath_eq]

end SameShared

/-- A store with a shared file and a private one. -/
def exampleTree (secret : String) : Files :=
  (AList.singleton "b.md".toList (.text ("---\nvisibility: private\n---\n".toList ++
    secret.toList))).insert "a.md".toList (.text "---\ntitle: a\n---\nshared\n".toList)

theorem lookup_exampleTree (secret : String) : (exampleTree secret).lookup "b.md".toList =
    some (.text ("---\nvisibility: private\n---\n".toList ++ secret.toList)) := rfl

theorem sameShared_exampleTree (secret secret' : String)
    (h : Cli.isPrivate (.text ("---\nvisibility: private\n---\n".toList ++ secret.toList)) = true)
    (h' : Cli.isPrivate (.text ("---\nvisibility: private\n---\n".toList ++ secret'.toList)) = true) :
    SameShared (exampleTree secret) (exampleTree secret') := by
  intro path
  by_cases hb : path = "b.md".toList
  · subst hb
    exact .inr ⟨_, _, lookup_exampleTree _, lookup_exampleTree _, .inr h, .inr h'⟩
  · left
    by_cases ha : path = "a.md".toList
    · rw [ha, exampleTree, AList.lookup_insert, exampleTree, AList.lookup_insert]
    · have hnone : ∀ blob, (AList.singleton "b.md".toList blob : Files).lookup path = none := by
        intro blob
        rw [AList.lookup_eq_none, AList.mem_keys, AList.keys_singleton, List.mem_singleton]
        exact hb
      rw [exampleTree, AList.lookup_insert_ne ha, hnone, exampleTree, AList.lookup_insert_ne ha,
        hnone]

end Hub

end Wkp
