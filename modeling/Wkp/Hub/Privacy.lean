import Wkp.Cli.Filter
import Wkp.Core.Merge
import Wkp.Hub.TenantRepo

/-!
# Private files in merges

* `Hub.StaysPrivate` : a text that the clean filter never stores as it is and the hub never indexes.
* `Hub.staysPrivate_of_private` : so is every text that reads back as private.
* `Hub.staysPrivate_merge_iff` : so is a merge of two private files exactly when it is clean.
* `Hub.runFilterClean_renderConflict`, `Hub.shared_renderConflict` : what happens to the others.
-/

namespace Wkp

open Rust Merge

namespace Hub

/-- The text is private, to the parser, to the clean filter and to the hub. -/
structure StaysPrivate (age : Crypto.Age) (text : Str) : Prop where
  /-- Its frontmatter says so. -/
  visibility : (Frontmatter.parse text).frontmatter.visibility = some .private
  /-- The clean filter never emits it as plaintext. -/
  filter : ∀ storeRoot store emitted,
    Cli.runFilterClean age storeRoot store (.text text) = .ok emitted → emitted ≠ .text text
  /-- The hub never indexes a path where its blob is the text. -/
  hub : ∀ today tree path summary db, indexTenant today (some tree) = .ok (summary, db) →
    tree.lookup path = some (.text text) → path ∉ summary.indexed ∧ path ∉ Index.knownPaths db
  /-- Nor a path where its blob is what the clean filter makes of the text. -/
  pushed : ∀ storeRoot store emitted,
    Cli.runFilterClean age storeRoot store (.text text) = .ok emitted →
      ∀ today tree path summary db, indexTenant today (some tree) = .ok (summary, db) →
        tree.lookup path = some emitted →
          path ∉ summary.indexed ∧ path ∉ Index.knownPaths db

theorem not_shared_of_startsWith {blob : Content}
    (h : blob.startsWith Crypto.ageHeader = true) : ¬ Shared blob := by
  rintro ⟨hn, -⟩
  rw [h] at hn
  cases hn

theorem not_shared_of_isPrivate {blob : Content} (h : Cli.isPrivate blob = true) :
    ¬ Shared blob := by
  rintro ⟨-, text, ht, hv⟩
  rw [Cli.isPrivate, ht] at h
  exact hv (of_decide_eq_true h)

theorem notMem_of_not_shared {today : ℕ} {tree : Files} {path : Str} {summary : IndexSummary}
    {db : Index.Db} (hi : indexTenant today (some tree) = .ok (summary, db)) {blob : Content}
    (hl : tree.lookup path = some blob) (hb : ¬ Shared blob) :
    path ∉ summary.indexed ∧ path ∉ Index.knownPaths db := by
  obtain ⟨hknown, hindexed⟩ := indexTenant_spec hi
  have hnot : path ∉ summary.indexed := by
    intro hp
    obtain ⟨-, -, blob', hread, hshared⟩ := (hindexed path).1 hp
    rw [Git.readBlob, Option.bind_some, hl] at hread
    obtain rfl := Except.ok.inj hread
    exact hb hshared
  exact ⟨hnot, fun hp => hnot ((hknown path).1 hp)⟩

theorem not_startsWith_of_private {text : Str}
    (h : (Frontmatter.parse text).frontmatter.visibility = some .private) :
    (Content.text text).startsWith Crypto.ageHeader = false := by
  refine Crypto.not_startsWith_ageHeader ?_
  cases text with
  | nil => exact nofun
  | cons c s =>
    rintro hc
    obtain rfl := Option.some.inj hc
    rw [Frontmatter.parse_cons (by decide) (by decide) (by decide)] at h
    cases h

/-- **What reads back as private stays private.** -/
theorem staysPrivate_of_private {age : Crypto.Age} (hage : age.Headed) {text : Str}
    (h : (Frontmatter.parse text).frontmatter.visibility = some .private) :
    StaysPrivate age text := by
  have hp : Cli.isPrivate (.text text) = true := decide_eq_true h
  have hemit : ∀ storeRoot store emitted,
      Cli.runFilterClean age storeRoot store (.text text) = .ok emitted →
        emitted.startsWith Crypto.ageHeader = true :=
    fun storeRoot store emitted he => Cli.runFilterClean_of_private hage hp he
  exact {
    visibility := h
    filter := by
      rintro storeRoot store emitted he rfl
      have hs := hemit storeRoot store _ he
      rw [not_startsWith_of_private h] at hs
      cases hs
    hub := fun today tree path summary db hi hl =>
      notMem_of_not_shared hi hl (not_shared_of_isPrivate hp)
    pushed := fun storeRoot store emitted he today tree path summary db hi hl =>
      notMem_of_not_shared hi hl (not_shared_of_startsWith (hemit storeRoot store emitted he)) }

/-- **The fallback is stored as it is**, whatever the visibility of the two documents in it. -/
theorem runFilterClean_renderConflict (T : CharTables) (age : Crypto.Age) (storeRoot : Str)
    (store : Files) (ours theirs : Str) :
    Cli.runFilterClean age storeRoot store (.text (renderConflict T ours theirs)) =
      .ok (.text (renderConflict T ours theirs)) := by
  refine Cli.runFilterClean_of_not_private age storeRoot store ?_
  rw [Cli.isPrivate, Content.fromUtf8]
  simp only [parse_renderConflict]
  rfl

/-- **The fallback is indexed by the hub.** -/
theorem shared_renderConflict (T : CharTables) (ours theirs : Str) :
    Shared (.text (renderConflict T ours theirs)) := by
  refine ⟨?_, _, rfl, ?_⟩
  · obtain ⟨rest, hrest⟩ := conflictMarker_prefix_renderConflict T ours theirs
    rw [hrest]
    rfl
  · rw [parse_renderConflict]
    exact nofun

theorem visibility_merge (T : CharTables) {base ours theirs : Str}
    (ho : (Frontmatter.parse ours).frontmatter.visibility = some .private)
    (ht : (Frontmatter.parse theirs).frontmatter.visibility = some .private)
    (h : ¬ Diverges base ours theirs) :
    (Frontmatter.parse (merge T base ours theirs)).frontmatter.visibility = some .private := by
  have hm := (merged_mergedOf h).visibility
  rw [ho, ht, ThreeWay.resolve_self] at hm
  rw [parse_merge T h]
  simp only [Frontmatter.reparse, ← Option.some.inj hm]
  rfl

/-- **Merging keeps two private files private exactly when they do not diverge.** -/
theorem staysPrivate_merge_iff (T : CharTables) {age : Crypto.Age} (hage : age.Headed)
    {base ours theirs : Str}
    (ho : (Frontmatter.parse ours).frontmatter.visibility = some .private)
    (ht : (Frontmatter.parse theirs).frontmatter.visibility = some .private) :
    StaysPrivate age (merge T base ours theirs) ↔ ¬ Diverges base ours theirs := by
  constructor
  · intro h hdiv
    have hv := h.visibility
    rw [merge_of_diverges T hdiv, parse_renderConflict] at hv
    cases hv
  · exact fun h => staysPrivate_of_private hage (visibility_merge T ho ht h)

/-- A private document with the given title. -/
def examplePrivate (title : String) : Str :=
  "---\nvisibility: private\ntitle: ".toList ++ title.toList ++ "\n---\nkey\n".toList

theorem staysPrivate_merge_iff_examplePrivate :
    (StaysPrivate Crypto.exampleAge (merge CharTables.asciiOnly (examplePrivate "a") (examplePrivate "a")
        (examplePrivate "b")) ↔
      ¬ Diverges (examplePrivate "a") (examplePrivate "a") (examplePrivate "b")) ∧
    ¬ Diverges (examplePrivate "a") (examplePrivate "a") (examplePrivate "b") :=
  ⟨staysPrivate_merge_iff _ (by rintro _ _ _ ⟨⟩; rfl) (by decide +kernel) (by decide +kernel),
    by decide +kernel⟩

/-- Two private documents with different titles: the merge is not private, the filter stores it as
it is, and the hub indexes it. -/
theorem merge_leaks_private :
    let merged := merge CharTables.asciiOnly (examplePrivate "a") (examplePrivate "b")
      (examplePrivate "c")
    (Frontmatter.parse (examplePrivate "b")).frontmatter.visibility = some .private ∧
      (Frontmatter.parse (examplePrivate "c")).frontmatter.visibility = some .private ∧
      (Frontmatter.parse merged).frontmatter.visibility ≠ some .private ∧
      Cli.runFilterClean Crypto.exampleAge "store".toList ∅ (.text merged) = .ok (.text merged) ∧
      (indexTenant 20000 (some (AList.singleton "a.md".toList (Content.text merged)))).map
        (fun r => (r.1.indexed, Index.knownPaths r.2)) = .ok (["a.md".toList], ["a.md".toList]) := by
  refine ⟨by decide +kernel, by decide +kernel, by decide +kernel, ?_, by decide +kernel⟩
  exact Cli.runFilterClean_of_not_private _ _ _ (by decide +kernel)

end Hub

end Wkp
