import Wkp.Core.Ledger
import Wkp.Crypto.Recipients
import Wkp.Git.Plumbing

/-!
# The index of a tenant

What the hub indexes of a bare repository.

* `Hub.indexTenant` : the index of the shared files at `HEAD`, and a summary.
* `Hub.Shared` : what a blob must be to be indexed.
* `Hub.indexTenant_spec` : the index holds exactly the shared markdown files.
-/

namespace Wkp

open Rust

namespace Hub

/-- What one run did. -/
structure IndexSummary where
  /-- The paths with an item in the index. -/
  indexed : List Str
  /-- The paths left out as private. -/
  skippedPrivate : List Str
  deriving DecidableEq, Repr

/-- What can go wrong, in git or in the index. -/
inductive TenantError
  | git (message : Str)
  | index (failure : Index.Failure)
  deriving DecidableEq

/-- The summary and the items so far. -/
structure Progress where
  /-- The summary. -/
  summary : IndexSummary
  /-- The items to index. -/
  items : List Index.Item

/-- A blob of a markdown path: skipped as a ciphertext, as no text, or as private, else indexed. -/
def indexBlob (acc : Progress) (path : Str) (blob : Content) : Progress :=
  if blob.startsWith Crypto.ageHeader then
    { acc with summary.skippedPrivate := acc.summary.skippedPrivate ++ [path] }
  else match blob.fromUtf8 with
    | none => acc
    | some text =>
      let parsed := Frontmatter.parse text
      if parsed.frontmatter.visibility = some .private then
        { acc with summary.skippedPrivate := acc.summary.skippedPrivate ++ [path] }
      else
        { summary := { acc.summary with indexed := acc.summary.indexed ++ [path] }
          -- the hub verifies no signatures
          items := acc.items ++ [{
            path := path, frontmatter := parsed.frontmatter, body := parsed.body
            humanSigned := false }] }

/-- One path of the tree. -/
def indexPath (head : Option Files) (acc : Progress) (path : Str) : Except TenantError Progress :=
  if !".md".toList.isSuffixOf path then .ok acc
  else ((Git.readBlob head path).mapError .git).map (indexBlob acc path)

/-- Rebuild the index of a tenant from `HEAD`.  With nothing pushed yet it is empty. -/
def indexTenant (today : ℕ) (head : Option Files) : Except TenantError (IndexSummary × Index.Db) :=
  do
    let paths := (Git.listFilesAtRef head).toOption.getD []
    let done ← paths.foldlM (indexPath head) ⟨⟨[], []⟩, []⟩
    let db ← (Index.buildIndex today done.items).mapError .index
    return (done.summary, db)

/-! ### What is indexed -/

/-- A blob that is indexed: text without the header of a ciphertext, and not private. -/
def Shared (blob : Content) : Prop :=
  blob.startsWith Crypto.ageHeader = false ∧
    ∃ text, blob.fromUtf8 = some text ∧
      (Frontmatter.parse text).frontmatter.visibility ≠ some .private

/-- The items are those of the indexed paths. -/
def Progress.InStep (acc : Progress) : Prop :=
  acc.items.map Index.Item.path = acc.summary.indexed

theorem indexBlob_inStep {acc : Progress} (h : acc.InStep) (path : Str) (blob : Content) :
    (indexBlob acc path blob).InStep := by
  rw [indexBlob]
  split_ifs
  · exact h
  · cases blob.fromUtf8 with
    | none => exact h
    | some text =>
      simp only
      split_ifs
      · exact h
      · rw [Progress.InStep, List.map_append, h, List.map_singleton]

theorem mem_indexed_indexBlob {acc : Progress} {path p : Str} {blob : Content} :
    p ∈ (indexBlob acc path blob).summary.indexed ↔
      p ∈ acc.summary.indexed ∨ (p = path ∧ Shared blob) := by
  rw [indexBlob, Shared]
  by_cases hh : blob.startsWith Crypto.ageHeader = true
  · simp [hh]
  · rw [if_neg hh]
    cases ht : blob.fromUtf8 with
    | none => simp
    | some text =>
      by_cases hp : (Frontmatter.parse text).frontmatter.visibility = some .private
      · simp [hp]
      · simp [hp, hh]

theorem indexPath_spec {head : Option Files} {acc acc' : Progress} {path : Str} (h : acc.InStep)
    (hs : indexPath head acc path = .ok acc') : acc'.InStep ∧ ∀ p,
      p ∈ acc'.summary.indexed ↔ p ∈ acc.summary.indexed ∨ (p = path ∧
        ".md".toList.isSuffixOf path = true ∧
          ∃ blob, Git.readBlob head path = .ok blob ∧ Shared blob) := by
  rw [indexPath] at hs
  cases hmd : ".md".toList.isSuffixOf path with
  | false =>
    rw [hmd, if_pos (by decide)] at hs
    obtain rfl := Except.ok.inj hs
    exact ⟨h, fun p => by simp⟩
  | true =>
    rw [hmd, if_neg (by decide)] at hs
    cases hb : Git.readBlob head path with
    | error e => rw [hb] at hs; cases hs
    | ok blob =>
      rw [hb] at hs
      obtain rfl := Except.ok.inj hs
      refine ⟨indexBlob_inStep h path blob, fun p => mem_indexed_indexBlob.trans ?_⟩
      simp

theorem foldlM_indexPath_spec {head : Option Files} {paths : List Str} {acc acc' : Progress}
    (h : acc.InStep) (hs : paths.foldlM (indexPath head) acc = .ok acc') : acc'.InStep ∧ ∀ p,
      p ∈ acc'.summary.indexed ↔ p ∈ acc.summary.indexed ∨ (p ∈ paths ∧
        ".md".toList.isSuffixOf p = true ∧
          ∃ blob, Git.readBlob head p = .ok blob ∧ Shared blob) := by
  induction paths generalizing acc with
  | nil =>
    obtain rfl := Except.ok.inj hs
    exact ⟨h, fun p => by simp⟩
  | cons path paths ih =>
    rw [List.foldlM_cons] at hs
    cases hstep : indexPath head acc path with
    | error e => rw [hstep] at hs; cases hs
    | ok acc₁ =>
      rw [hstep] at hs
      obtain ⟨h₁, hmem₁⟩ := indexPath_spec h hstep
      obtain ⟨h₂, hmem₂⟩ := ih h₁ hs
      refine ⟨h₂, fun p => (hmem₂ p).trans ?_⟩
      rw [hmem₁, List.mem_cons]
      constructor
      · rintro ((hp | ⟨rfl, hp⟩) | ⟨hp, hq⟩)
        exacts [.inl hp, .inr ⟨.inl rfl, hp⟩, .inr ⟨.inr hp, hq⟩]
      · rintro (hp | ⟨rfl | hp, hq⟩)
        exacts [.inl (.inl hp), .inl (.inr ⟨rfl, hq⟩), .inr ⟨hp, hq⟩]

theorem exists_of_indexTenant {today : ℕ} {head : Option Files} {summary : IndexSummary}
    {db : Index.Db} (h : indexTenant today head = .ok (summary, db)) :
    ∃ done, ((Git.listFilesAtRef head).toOption.getD []).foldlM (indexPath head) ⟨⟨[], []⟩, []⟩ =
      .ok done ∧ Index.buildIndex today done.items = .ok db ∧ done.summary = summary := by
  rw [indexTenant] at h
  cases hf : ((Git.listFilesAtRef head).toOption.getD []).foldlM (indexPath head)
      ⟨⟨[], []⟩, []⟩ with
  | error e => rw [hf] at h; cases h
  | ok done =>
    rw [hf] at h
    cases hdb : Index.buildIndex today done.items with
    | error e =>
      change (do let db ← (Index.buildIndex today done.items).mapError _; _) = _ at h
      rw [hdb] at h
      cases h
    | ok db' =>
      change (do let db ← (Index.buildIndex today done.items).mapError _; _) = _ at h
      rw [hdb] at h
      obtain ⟨rfl, rfl⟩ := Prod.mk.inj (Except.ok.inj h)
      exact ⟨done, rfl, hdb, rfl⟩

/-- **The index of a tenant** has a row for exactly the paths of its summary, and these are the
markdown paths of the tree whose blob is shared. -/
theorem indexTenant_spec {today : ℕ} {head : Option Files} {summary : IndexSummary}
    {db : Index.Db} (h : indexTenant today head = .ok (summary, db)) :
    (∀ p, p ∈ Index.knownPaths db ↔ p ∈ summary.indexed) ∧ ∀ p, p ∈ summary.indexed ↔
      p ∈ (Git.listFilesAtRef head).toOption.getD [] ∧ ".md".toList.isSuffixOf p = true ∧
        ∃ blob, Git.readBlob head p = .ok blob ∧ Shared blob := by
  obtain ⟨done, hf, hdb, rfl⟩ := exists_of_indexTenant h
  have hnil : Progress.InStep ⟨⟨[], []⟩, []⟩ := rfl
  obtain ⟨hstep, hmem⟩ := foldlM_indexPath_spec hnil hf
  refine ⟨fun p => ?_, fun p => by rw [hmem]; simp⟩
  rw [Index.mem_knownPaths_buildIndex hdb, hstep]

theorem inStep_of_indexTenant {today : ℕ} {head : Option Files} {summary : IndexSummary}
    {db : Index.Db} (h : indexTenant today head = .ok (summary, db)) : Index.InStep db := by
  obtain ⟨done, -, hdb, -⟩ := exists_of_indexTenant h
  exact (Index.represents_buildIndex hdb).inStep

end Hub

end Wkp
