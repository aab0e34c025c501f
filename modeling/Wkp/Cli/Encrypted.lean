import Wkp.Cli.Reported

/-!
# Merging private items

The merge of two encrypted versions of an item.

* `Cli.clean_eq_binary` : what git stores for a private file is no text.
* `Cli.MergesEncrypted` : the driver merges the versions, and the sync goes on from there.
* `Cli.not_mergesEncrypted` : it never does; the sync stops at the item.
-/

namespace Wkp

open Rust Git

namespace Cli

variable {T : CharTables} {F : Filters} {V : View}

/-- The merge driver and what follows from its success: of the paths of markdown files only those
are left unmerged that one side deleted, and the sync finishes the merge. -/
structure MergesEncrypted (T : CharTables) (F : Filters) (V : View) (r : Repo)
    (m : Incoming × (ℕ → ℕ)) (base : Option Content) (ours theirs : Content) : Prop where
  /-- The driver succeeds. -/
  driver : (mergeDriver T (base.getD (.text [])) ours theirs).isSome
  /-- What is left is of modify/delete kind. -/
  left : ∀ p stages, ".md".toList.isSuffixOf p →
    (Effect.exec (mergeBranch F (mergeDriver T) m.1) r).2.index.lookup p = some (.unmerged stages) →
      ∃ deletedBy, stagesKind stages = .modifyDelete deletedBy
  /-- The merge is finished. -/
  finishes : (Effect.exec (mergeRef T F V m) r).1.isOk = true

/-! ### What the driver is given -/

/-- What git stores for a private file is no text. -/
theorem clean_eq_binary {age : Crypto.Age} (hage : age.Binary) {storeRoot : Str}
    {deviceId : Except Str Str} {ensure : Str → Except Crypto.Error age.Identity} {store : Files}
    {path : Str} {content blob : Content} (hpath : ".md".toList.isSuffixOf path = true)
    (hprivate : isPrivate content = true)
    (h : (filters age storeRoot deviceId ensure).clean store path content = .ok blob) :
    blob.fromUtf8 = none := by
  change (if ".md".toList.isSuffixOf path then runFilterClean age storeRoot store content
    else .ok content) = .ok blob at h
  rw [if_pos hpath, runFilterClean, hprivate, if_neg (by decide)] at h
  cases hr : store.readToString recipientsFilename with
  | error e => rw [hr] at h; cases h
  | ok recipients =>
    rw [hr] at h
    dsimp only at h
    cases he : Crypto.encrypt age content
        ((Crypto.parseRecipients age.fromString recipients).map (·.recipient)) with
    | error e => rw [he] at h; cases h
    | ok ciphertext =>
      rw [he] at h
      obtain rfl := Except.ok.inj h
      rw [Crypto.encrypt] at he
      split_ifs at he
      exact hage _ _ _ he

theorem mergeDriver_eq_none {base ours theirs : Content} (h : ours.fromUtf8 = none) :
    mergeDriver T base ours theirs = none := by
  by_contra hne
  obtain ⟨merged, hm⟩ := Option.ne_none_iff_exists'.1 hne
  obtain ⟨b, o, t, -, rfl, -⟩ := mergeDriver_eq_some.1 hm
  cases h

/-! ### What is left unmerged -/

/-- The path is left unmerged, and not because one side deleted it. -/
def Stuck (path : Str) (r : Repo) : Prop :=
  ∃ stages, r.index.lookup path = some (.unmerged stages) ∧
    ∀ deletedBy, stagesKind stages ≠ .modifyDelete deletedBy

theorem stuck_of_mergeBranch {r : Repo} {m : Incoming} {path : Str} {base : Option Content}
    {ours theirs : Content} (hidle : r.mergeHead = none ∧ r.hasUnmerged = false)
    (hkind : m.kind = .threeWay) (hfile : m.files.lookup path = some (.driven base ours theirs))
    (hdriver : mergeDriver T (base.getD (.text [])) ours theirs = none) :
    ∃ s, Effect.exec (mergeBranch F (mergeDriver T) m) r = (.ok false, s) ∧ Stuck path s := by
  obtain ⟨hindex, -⟩ := lookup_settleFiles F (mergeDriver T) r m.files hfile
  rw [FileMerge.outcome, hdriver] at hindex
  have hunmerged : (settleFiles F (mergeDriver T) r m.files).hasUnmerged = true :=
    (Repo.hasUnmerged_iff _).2 ⟨path, _, hindex⟩
  refine ⟨{ settleFiles F (mergeDriver T) r m.files with mergeHead := some m.commit }, ?_, _, hindex,
    fun deletedBy hk => ?_⟩
  · rw [mergeBranch, Effect.exec_get_bind, if_neg (by simp [hidle.1, hidle.2]), hkind]
    dsimp only
    rw [if_pos hunmerged]
    rfl
  · cases base <;> cases hk

/-- Only the path itself, staged, is not stuck any more. -/
theorem keeps_stuck_stagePath {path p : Str} (hp : p ≠ path) (ignored : Str → Bool) :
    Effect.Keeps (Stuck path) (stagePath F ignored p) := by
  rintro s ⟨stages, hstages, hkind⟩
  rcases exec_stagePath F ignored p s with h | ⟨entry, -, h⟩
  · rw [h]
    exact ⟨stages, hstages, hkind⟩
  · rw [h]
    exact ⟨stages, ((Repo.lookup_setAt _ _ _ _).trans (if_neg hp.symm)).trans hstages, hkind⟩

/-- The path that a conflict of modify/delete kind is about is not stuck: a name in quotes is not
that of a markdown file. -/
theorem ne_of_mem_modifyDeleteConflicts {r : Repo} {path : Str}
    (hpath : ".md".toList.isSuffixOf path = true) (hstuck : Stuck path r) {c : Str × DeletedBy}
    (hc : c ∈ modifyDeleteConflicts F V r) : c.1 ≠ path := by
  obtain ⟨p, stages, hstages, hmd, hquote⟩ := mem_modifyDeleteConflicts.1 hc
  rintro hcpath
  rw [hcpath] at hquote
  by_cases hp : Unquoted p
  · rw [quotePath_of_unquoted hp] at hquote
    subst hquote
    obtain ⟨stages', hstages', hnot⟩ := hstuck
    rw [hstages] at hstages'
    cases hstages'
    exact hnot _ hmd
  · have hlast := getLast?_quotePath hp
    obtain ⟨stem, hstem⟩ := List.isSuffixOf_iff_suffix.1 hpath
    have hd : ".md".toList.getLast? = some 'd' := rfl
    rw [hquote, ← hstem, List.getLast?_append, hd, Option.some_or] at hlast
    exact absurd hlast (by decide)

theorem keeps_stuck_resolve {path : Str} (hpath : ".md".toList.isSuffixOf path = true)
    {clock : ℕ → ℕ} {r : Repo} (hr : Stuck path r)
    (hnote : ∀ c ∈ modifyDeleteConflicts F V r, ∀ i, notePath c.1 (clock i) ≠ path) :
    Stuck path (Effect.exec (resolveModifyDeleteConflicts T F V clock) r).2 := by
  have hwrite : ∀ p text, Effect.Keeps (Stuck path) (writeInboxFile p text) := by
    intro p text s hs
    rw [writeInboxFile, Effect.exec_get_bind]
    split_ifs <;> exact hs
  rw [resolveModifyDeleteConflicts, Effect.exec_get_bind]
  refine Effect.Keeps.mapM (I := Stuck path) (fun c hc => ?_) r hr
  obtain ⟨c, i⟩ := c
  have hmem : c ∈ modifyDeleteConflicts F V r := List.fst_mem_of_mem_zipIdx hc
  exact Effect.Keeps.get.bind fun s =>
    (keeps_stuck_stagePath (ne_of_mem_modifyDeleteConflicts hpath hr hmem) _).bind fun _ =>
      (hwrite _ _).bind fun _ => Effect.Keeps.get.bind fun s =>
        (keeps_stuck_stagePath (hnote c hmem i) _).bind fun _ => .pure _

theorem not_isOk_finishMerge {path : Str} {r : Repo} (hr : Stuck path r) :
    (Effect.exec finishMerge r).1.isOk = false := by
  obtain ⟨stages, hstages, -⟩ := hr
  rw [finishMerge, Effect.exec_get_bind, if_pos ((Repo.hasUnmerged_iff _).2 ⟨path, stages, hstages⟩)]
  rfl

/-! ### No two private versions are merged -/

/-- **The driver merges no private version**, whichever device stored it: the item is left unmerged
with a kind that the sync takes for impossible, and the sync fails there, unless the note about a
deletion takes the place of the item. -/
theorem not_mergesEncrypted {age : Crypto.Age} (hage : age.Binary) {storeRoot : Str}
    {deviceId : Except Str Str} {ensure : Str → Except Crypto.Error age.Identity} {store : Files}
    {path : Str} {content ours : Content} (hpath : ".md".toList.isSuffixOf path = true)
    (hprivate : isPrivate content = true)
    (hours : (filters age storeRoot deviceId ensure).clean store path content = .ok ours)
    {r : Repo} (hidle : r.mergeHead = none ∧ r.hasUnmerged = false) {m : Incoming × (ℕ → ℕ)}
    (hkind : m.1.kind = .threeWay) {base : Option Content} {theirs : Content}
    (hfile : m.1.files.lookup path = some (.driven base ours theirs)) :
    ¬ MergesEncrypted T F V r m base ours theirs ∧
      Stuck path (Effect.exec (mergeBranch F (mergeDriver T) m.1) r).2 ∧
      ((∀ c ∈ modifyDeleteConflicts F V (Effect.exec (mergeBranch F (mergeDriver T) m.1) r).2,
        ∀ i, notePath c.1 (m.2 i) ≠ path) → (Effect.exec (mergeRef T F V m) r).1.isOk = false) := by
  have hdriver : mergeDriver T (base.getD (.text [])) ours theirs = none :=
    mergeDriver_eq_none (clean_eq_binary hage hpath hprivate hours)
  obtain ⟨s, hmerge, hstuck⟩ := stuck_of_mergeBranch (F := F) hidle hkind hfile hdriver
  refine ⟨fun h => ?_, ?_, fun hnote => ?_⟩
  · have := h.driver
    rw [hdriver] at this
    cases this
  · rw [hmerge]
    exact hstuck
  · rw [hmerge] at hnote
    have hresolved := keeps_stuck_resolve (T := T) hpath hstuck hnote
    rw [mergeRef, Effect.exec_bind, hmerge]
    dsimp only
    rw [if_neg Bool.false_ne_true, Effect.exec_bind, resolveAndFinish, Effect.exec_bind]
    rcases hx : Effect.exec (resolveModifyDeleteConflicts T F V m.2) s with ⟨e | notes, s₁⟩
    · rfl
    · rw [hx] at hresolved
      dsimp only
      rcases hf : Effect.exec finishMerge s₁ with ⟨e | u, s₂⟩
      · rfl
      · have hfails := not_isOk_finishMerge hresolved
        rw [hf] at hfails
        cases hfails

/-- A private document with the given body. -/
def examplePrivate (body : String) : Content :=
  .text ("---\nvisibility: private\n---\n".toList ++ body.toList)

/-- The files of a store with one device. -/
def exampleKeyring : Files := AList.singleton recipientsFilename (.text "device:a k1\n".toList)

/-- The filters of that device. -/
def sealedFilters : Filters :=
  filters Crypto.exampleSealed "store".toList (.ok "a".toList) fun _ => .ok ()

/-- What it stores for a version of the document. -/
def exampleSealedDoc (body : String) : Content :=
  ((sealedFilters.clean exampleKeyring "a.md".toList (examplePrivate body)).toOption).getD (.text [])

/-- The merge of two versions of the document. -/
def exampleSealedMerge : Incoming × (ℕ → ℕ) :=
  (exampleIncoming (exampleSealedDoc "a") (exampleSealedDoc "b") (exampleSealedDoc "c"), fun _ => 0)

theorem not_mergesEncrypted_exampleSealedMerge : ¬ MergesEncrypted CharTables.asciiOnly sealedFilters
    exampleView (exampleStore (exampleSealedDoc "b")) exampleSealedMerge (some (exampleSealedDoc "a"))
    (exampleSealedDoc "b") (exampleSealedDoc "c") :=
  (not_mergesEncrypted Crypto.binary_exampleSealed (by decide : _ = true)
    (by decide +kernel : isPrivate (examplePrivate "b") = true)
    (rfl : sealedFilters.clean exampleKeyring "a.md".toList _ = _) (by decide +kernel) rfl rfl).1

/-- Two devices edit a private item: the sync fails. -/
theorem not_isOk_exampleSealedMerge :
    (Effect.exec (mergeRefsIntoCurrentBranch CharTables.asciiOnly sealedFilters exampleView
      [exampleSealedMerge]) (exampleStore (exampleSealedDoc "b"))).1.isOk = false ∧
    ¬ MergesEncrypted CharTables.asciiOnly sealedFilters exampleView
      (exampleStore (exampleSealedDoc "b")) exampleSealedMerge (some (exampleSealedDoc "a"))
      (exampleSealedDoc "b") (exampleSealedDoc "c") := by
  refine ⟨by decide +kernel, fun h => ?_⟩
  exact absurd h.driver (by decide +kernel)

end Cli

end Wkp
