import Wkp.Cli.Forget
import Wkp.Cli.Promote

/-!
# What a signed commit changes

The commands that sign stage the paths they are about and commit the whole index.

* `Cli.MovesOnly`, `Cli.RemovesOnly`, `Cli.RestagesOnly` : the commit changes what was asked for, and
  nothing else.
* `Cli.changesOnly_iff` : it does so exactly when the index agreed with `HEAD` elsewhere.
-/

namespace Wkp

open Rust Git

namespace Cli

/-- The index agrees with `HEAD`, except perhaps at some paths. -/
def CleanExcept (touched : Str → Prop) (r : Repo) : Prop :=
  ∀ p, ¬ touched p → r.stagedAt p = r.headTree.lookup p

/-- Between the two states the source left `HEAD` and the destination came into it, with the content
of the source; every other path is as it was. -/
def MovesOnly (F : Filters) (source : Location) (dest : Str) (r r' : Repo) : Prop :=
  r'.worktree.lookup dest = r.fileAt source ∧
    (r'.cleaned F dest (.inside dest)).isSome ∧
    ∀ p, r'.headTree.lookup p =
      if p = dest then r'.cleaned F dest (.inside dest)
      else if source = .inside p then none
      else r.headTree.lookup p

/-- Between the two states the item left `HEAD`; every other path is as it was. -/
def RemovesOnly (item : Location) (r r' : Repo) : Prop :=
  ∀ p, r'.headTree.lookup p = if item = .inside p then none else r.headTree.lookup p

/-- Between the two states some paths were stored as they are in the worktree; every other path is
as it was. -/
def RestagesOnly (F : Filters) (paths : List Str) (r r' : Repo) : Prop :=
  (∀ p ∈ paths, (r'.cleaned F p (.inside p)).isSome) ∧
    ∀ p, r'.headTree.lookup p =
      if p ∈ paths then r'.cleaned F p (.inside p) else r.headTree.lookup p

variable {H : Host} {r r' : Repo}

theorem stagedAt_of_index {r r' : Repo} (h : r'.index = r.index) (p : Str) :
    r'.stagedAt p = r.stagedAt p := by
  rw [Repo.stagedAt, Repo.stagedAt, h]

/-! ### The commits of the three commands -/

theorem exec_createParent_eq_ok {path : Str} {u : Unit}
    (h : Effect.exec (createParent H path) r = (.ok u, r')) : ∃ places, r' = r.addDirs places := by
  rw [createParent] at h
  split at h
  · exact exec_createDirAll_eq_ok h
  · cases h
    exact ⟨[], by simp [Repo.addDirs]⟩

theorem headTree_of_runPromote {opts : PromoteOptions} {summary : PromoteSummary}
    (h : Effect.exec (runPromote H opts) r = (.ok summary, r')) :
    ∃ contents dest source, planPromote H opts r = .ok (contents, dest) ∧
      gitPath H.root opts.inboxPath = some source ∧ target H.root dest = .inside dest ∧
      r'.worktree.lookup dest = some (.text contents) ∧ r'.worktree.lookup source = none ∧
      (r'.cleaned H.filters dest (.inside dest)).isSome ∧
      ∀ p, r'.headTree.lookup p =
        if p = dest then r'.cleaned H.filters dest (.inside dest)
        else if p = source then none
        else r.stagedAt p := by
  rw [runPromote, Effect.exec_get_bind, Effect.exec_ofExcept_bind_eq_ok] at h
  obtain ⟨⟨contents, dest⟩, hplan, h⟩ := h
  dsimp only at h
  rw [Effect.exec_bind_eq_ok] at h
  obtain ⟨_, r₁, hparent, h⟩ := h
  obtain ⟨places, rfl⟩ := exec_createParent_eq_ok hparent
  rw [Effect.exec_bind_eq_ok] at h
  obtain ⟨_, r₂, hwrite, h⟩ := h
  obtain ⟨temp, -, hr₂, -⟩ := exec_atomicWrite_eq_ok hwrite
  rw [Effect.exec_bind_eq_ok] at h
  obtain ⟨_, r₃, hremove, h⟩ := h
  obtain ⟨-, -, dirs', hr₃⟩ := exec_removeFile_eq_ok (Effect.exec_mapError_eq_ok.1 hremove)
  rw [Effect.exec_bind_eq_ok] at h
  obtain ⟨_, r₄, hindex, h⟩ := h
  obtain ⟨source, hgit, hr₄⟩ := exec_removeFromIndex_eq_ok hindex
  have hsource := target_of_gitPath hgit
  rw [Effect.exec_bind_eq_ok] at h
  obtain ⟨commit, r₅, hcommit, h⟩ := h
  cases h
  obtain ⟨hworktree, hpaths, htree⟩ := headTree_of_signedCommit hcommit
  obtain ⟨hverify, hcleaned⟩ := hpaths dest List.mem_cons_self
  have hdest := target_of_verifyPath H.root hverify
  -- the files after the write and the removal
  have hfile : ∀ p, r₃.worktree.lookup p = if p = source then none else r₂.worktree.lookup p := by
    intro p
    have := Repo.fileAt_setFile (r := r₂) (target H.root opts.inboxPath) (.inside p) none
    rw [hsource] at this
    rw [hr₃, hsource]
    simp only [Location.inside.injEq] at this
    exact this
  have hw : r₄.worktree = r₃.worktree := by rw [hr₄]
  have hgone : r₃.worktree.lookup source = none := by rw [hfile, if_pos rfl]
  have hne : dest ≠ source := by
    rintro rfl
    rw [Repo.cleaned, Repo.fileAt, hw, hgone] at hcleaned
    cases hcleaned
  have hthere : r₃.worktree.lookup dest = some (.text contents) := by
    rw [hfile, if_neg hne, hr₂]
    have := Repo.fileAt_setFile
      (r := (r.addDirs places).setFile temp none) (target H.root dest) (.inside dest)
      (some (.text contents))
    rw [if_pos hdest.symm] at this
    exact this
  have hstore : ∀ p, r'.cleaned H.filters p (.inside p) = r₄.cleaned H.filters p (.inside p) := by
    intro p
    simp only [Repo.cleaned, Repo.fileAt, hworktree]
  refine ⟨contents, dest, source, hplan, hgit, hdest, ?_, ?_, ?_, fun p => ?_⟩
  · rw [hworktree, hw, hthere]
  · rw [hworktree, hw, hgone]
  · rw [hstore]
    exact hcleaned
  · rw [htree p]
    by_cases hp : p = dest
    · subst hp
      rw [if_pos (List.mem_singleton_self p), if_pos rfl, hstore]
    · rw [if_neg (fun h => hp (List.mem_singleton.1 h)), if_neg hp]
      -- the removed source is staged as missing, everything else as it was before
      have hsrc : r₃.cleaned H.filters source (.inside source) = none := by
        rw [Repo.cleaned, Repo.fileAt, hgone]
        rfl
      have hstaged : r₃.stagedAt p = r.stagedAt p := by
        refine stagedAt_of_index ?_ p
        rw [hr₃, hr₂]
        simp only [Repo.index_addDirs, Repo.index_setFile]
      rw [hr₄, stagedAt_setAt, hsrc, hstaged]

theorem headTree_of_runForgetItem {opts : ForgetOptions} {item : Str} {summary : ForgetItemSummary}
    (h : Effect.exec (runForgetItem H opts item) r = (.ok summary, r')) :
    ∃ p, target H.root item = .inside p ∧
      ∀ q, r'.headTree.lookup q = if q = p then none else r.stagedAt q := by
  rw [runForgetItem, Effect.exec_get_bind, Effect.exec_ofExcept_bind_eq_ok] at h
  obtain ⟨_, -, h⟩ := h
  rw [Effect.exec_bind_eq_ok] at h
  obtain ⟨_, r₁, hremove, h⟩ := h
  obtain ⟨-, -, dirs, hr₁⟩ := exec_removeFile_eq_ok (Effect.exec_mapError_eq_ok.1 hremove)
  rw [Effect.exec_bind_eq_ok] at h
  obtain ⟨commit, r₂, hcommit, h⟩ := h
  cases h
  obtain ⟨p, hgit, htree⟩ := headTree_of_signedRemovalCommit hcommit
  have hp := target_of_gitPath hgit
  have hgone : r₁.cleaned H.filters p (.inside p) = none := by
    have := Repo.fileAt_setFile (r := r) (target H.root item) (.inside p) none
    rw [if_pos hp.symm] at this
    rw [Repo.cleaned, hr₁, Repo.fileAt_addDirs]
    exact congrArg (Option.bind · _) this
  refine ⟨p, hp, fun q => ?_⟩
  rw [htree q, hgone]
  refine congrArg (ite _ _) (stagedAt_of_index ?_ q)
  rw [hr₁, Repo.index_addDirs, Repo.index_setFile]

theorem headTree_of_runForgetDevice {opts : ForgetOptions} {age : Crypto.Age} {deviceId : Str}
    {summary : ForgetDeviceSummary}
    (h : Effect.exec (runForgetDevice H opts age deviceId) r = (.ok summary, r')) :
    ∃ updated, planForgetDevice H opts age deviceId r = .ok (updated, privatePaths H r) ∧
      r'.worktree = r.worktree.insert recipientsFilename (.text updated) ∧
      (∀ p ∈ recipientsFilename :: privatePaths H r,
        verifyPath p = true ∧ (r'.cleaned H.filters p (.inside p)).isSome) ∧
      ∀ p, r'.headTree.lookup p =
        if p ∈ recipientsFilename :: privatePaths H r then r'.cleaned H.filters p (.inside p)
        else r.stagedAt p := by
  rw [runForgetDevice, Effect.exec_get_bind, Effect.exec_ofExcept_bind_eq_ok] at h
  obtain ⟨⟨updated, paths⟩, hplan, h⟩ := h
  obtain rfl := (planForgetDevice_eq_ok hplan).1
  dsimp only at h
  rw [Effect.exec_bind_eq_ok] at h
  obtain ⟨_, r₁, hwrite, h⟩ := h
  rw [exec_writeRecipients] at hwrite
  cases hfault : H.faults .writeRecipients with
  | some e => rw [hfault] at hwrite; cases hwrite
  | none =>
  rw [hfault] at hwrite
  cases hwrite
  rw [Effect.exec_bind_eq_ok] at h
  obtain ⟨commit, r₂, hcommit, h⟩ := h
  cases h
  obtain ⟨hworktree, hpaths, htree⟩ := headTree_of_signedCommit hcommit
  -- git stores the files as they are once the recipients are written
  have hstore : ∀ p, r'.cleaned H.filters p (.inside p) =
      Repo.cleaned { r with worktree := r.worktree.insert recipientsFilename (.text updated) }
        H.filters p (.inside p) := by
    intro p
    simp only [Repo.cleaned, Repo.fileAt, hworktree]
  refine ⟨updated, hplan, hworktree, fun p hp => ?_, fun p => ?_⟩
  · rw [hstore]
    exact hpaths p hp
  · rw [htree p, hstore]
    rfl

/-! ### Exactly what was asked for -/

theorem movesOnly_runPromote_iff {opts : PromoteOptions} {summary : PromoteSummary}
    (h : Effect.exec (runPromote H opts) r = (.ok summary, r')) {contents dest : Str}
    (hplan : planPromote H opts r = .ok (contents, dest)) :
    MovesOnly H.filters (target H.root opts.inboxPath) dest r r' ↔
      CleanExcept (fun p => p = dest ∨ target H.root opts.inboxPath = .inside p) r := by
  obtain ⟨contents', dest', source, hplan', hgit, -, hthere, -, hcleaned, htree⟩ :=
    headTree_of_runPromote h
  have hsource := target_of_gitPath hgit
  rw [hplan] at hplan'
  cases hplan'
  rw [hsource]
  constructor
  · rintro ⟨-, -, hexact⟩ p hp
    rw [not_or, Location.inside.injEq] at hp
    have := (htree p).symm.trans (hexact p)
    rwa [if_neg hp.1, if_neg (Ne.symm hp.2), if_neg hp.1,
      if_neg (fun h => hp.2 (Location.inside.inj h))] at this
  · refine fun hclean => ⟨?_, hcleaned, fun p => ?_⟩
    · rw [hthere, ← hsource, fileAt_of_planPromote hplan]
    · rw [htree p]
      by_cases hd : p = dest
      · rw [if_pos hd, if_pos hd]
      rw [if_neg hd, if_neg hd]
      by_cases hs : p = source
      · rw [if_pos hs, if_pos (congrArg _ hs.symm)]
      rw [if_neg hs, if_neg (fun h => hs (Location.inside.inj h).symm)]
      exact hclean p (not_or.2 ⟨hd, fun h => hs (Location.inside.inj h).symm⟩)

theorem removesOnly_runForgetItem_iff {opts : ForgetOptions} {item : Str}
    {summary : ForgetItemSummary}
    (h : Effect.exec (runForgetItem H opts item) r = (.ok summary, r')) :
    RemovesOnly (target H.root item) r r' ↔
      CleanExcept (fun p => target H.root item = .inside p) r := by
  obtain ⟨source, hsource, htree⟩ := headTree_of_runForgetItem h
  rw [hsource]
  constructor
  · intro hexact p hp
    have := (htree p).symm.trans (hexact p)
    rwa [if_neg (fun h => hp (congrArg _ h.symm)), if_neg hp] at this
  · intro hclean p
    rw [htree p]
    by_cases hs : p = source
    · rw [if_pos hs, if_pos (congrArg _ hs.symm)]
    · have hs' : ¬ Location.inside source = .inside p := fun h => hs (Location.inside.inj h).symm
      rw [if_neg hs, if_neg hs']
      exact hclean p hs'

theorem restagesOnly_runForgetDevice_iff {opts : ForgetOptions} {age : Crypto.Age} {deviceId : Str}
    {summary : ForgetDeviceSummary}
    (h : Effect.exec (runForgetDevice H opts age deviceId) r = (.ok summary, r')) :
    RestagesOnly H.filters (recipientsFilename :: privatePaths H r) r r' ↔
      CleanExcept (· ∈ recipientsFilename :: privatePaths H r) r := by
  obtain ⟨updated, -, -, hcleaned, htree⟩ := headTree_of_runForgetDevice h
  constructor
  · rintro ⟨-, hexact⟩ p hp
    have := (htree p).symm.trans (hexact p)
    rwa [if_neg hp, if_neg hp] at this
  · refine fun hclean => ⟨fun p hp => (hcleaned p hp).2, fun p => ?_⟩
    rw [htree p]
    by_cases hp : p ∈ recipientsFilename :: privatePaths H r
    · rw [if_pos hp, if_pos hp]
    · rw [if_neg hp, if_neg hp]
      exact hclean p hp

/-- **A signed commit changes only what was asked for exactly when the index agreed with `HEAD`
everywhere else**: each of the three commands commits whatever is staged. -/
theorem changesOnly_iff (H : Host) (age : Crypto.Age) (r : Repo) :
    (∀ opts contents dest, planPromote H opts r = .ok (contents, dest) →
      (Effect.exec (runPromote H opts) r).1.isOk = true →
        (MovesOnly H.filters (target H.root opts.inboxPath) dest r
            (Effect.exec (runPromote H opts) r).2 ↔
          CleanExcept (fun p => p = dest ∨ target H.root opts.inboxPath = .inside p) r)) ∧
    (∀ opts item, (Effect.exec (runForgetItem H opts item) r).1.isOk = true →
      (RemovesOnly (target H.root item) r (Effect.exec (runForgetItem H opts item) r).2 ↔
        CleanExcept (fun p => target H.root item = .inside p) r)) ∧
    ∀ opts deviceId, (Effect.exec (runForgetDevice H opts age deviceId) r).1.isOk = true →
      (RestagesOnly H.filters (recipientsFilename :: privatePaths H r) r
          (Effect.exec (runForgetDevice H opts age deviceId) r).2 ↔
        CleanExcept (· ∈ recipientsFilename :: privatePaths H r) r) := by
  refine ⟨fun opts contents dest hplan hok => ?_, fun opts item hok => ?_,
    fun opts deviceId hok => ?_⟩
  · obtain ⟨summary, h⟩ := Effect.exists_exec_eq_ok hok
    exact movesOnly_runPromote_iff h hplan
  · obtain ⟨summary, h⟩ := Effect.exists_exec_eq_ok hok
    exact removesOnly_runForgetItem_iff h
  · obtain ⟨summary, h⟩ := Effect.exists_exec_eq_ok hok
    exact restagesOnly_runForgetDevice_iff h

/-! ### A store with another path staged -/

/-- Whether the index agrees with `HEAD` can be checked on the paths in them. -/
theorem cleanExcept_iff_keys {touched : Str → Prop} {r : Repo} :
    CleanExcept touched r ↔ ∀ p ∈ r.index.keys ++ r.headTree.keys,
      ¬ touched p → r.stagedAt p = r.headTree.lookup p := by
  refine ⟨fun h p _ => h p, fun h p hp => ?_⟩
  by_cases ht : p ∈ r.index.keys ++ r.headTree.keys
  · exact h p ht hp
  · rw [List.mem_append, not_or] at ht
    rw [Repo.stagedAt, AList.lookup_eq_none.2 ht.1, AList.lookup_eq_none.2 ht.2]

/-- A host where nothing fails and everything is signed. -/
def exampleHost : Host where
  root := ["store".toList]
  filters := exampleFilters
  sign principal _ := .ok ⟨"G".toList, principal⟩
  faults _ := none
  stamp := "1-1".toList

/-- A store with two devices, a new item in its inbox and perhaps a staged file. -/
def exampleInbox (other : Files) : Repo :=
  let tree := AList.singleton recipientsFilename (.text "device:a k1\ndevice:b k2\n".toList)
  { head := some (.root tree unsigned)
    index := (tree ∪ other).entries.foldr (fun e index => index.insert e.1 (.staged e.2)) ∅
    worktree := (tree ∪ other).insert "inbox/a.md".toList (.text "note\n".toList) }

/-- The item of the example, promoted by a human. -/
def examplePromotion : PromoteOptions :=
  ⟨"inbox/a.md".toList, some "user/a.md".toList, "human:alice".toList, "key".toList⟩

/-- A human who forgets. -/
def exampleForgetting : ForgetOptions := ⟨"human:alice".toList, "key".toList⟩

theorem changesOnly_iff_exampleInbox :
    MovesOnly exampleFilters (.inside "inbox/a.md".toList) "user/a.md".toList (exampleInbox ∅)
        (Effect.exec (runPromote exampleHost examplePromotion) (exampleInbox ∅)).2 ∧
      RemovesOnly (.inside recipientsFilename) (exampleInbox ∅)
        (Effect.exec (runForgetItem exampleHost exampleForgetting recipientsFilename)
          (exampleInbox ∅)).2 ∧
      RestagesOnly exampleFilters (recipientsFilename :: privatePaths exampleHost (exampleInbox ∅))
        (exampleInbox ∅) (Effect.exec (runForgetDevice exampleHost exampleForgetting Crypto.exampleAge
          "b".toList) (exampleInbox ∅)).2 := by
  obtain ⟨hmove, hremove, hrestage⟩ := changesOnly_iff exampleHost Crypto.exampleAge (exampleInbox ∅)
  refine ⟨?_, ?_, ?_⟩
  · exact (hmove examplePromotion "note\n".toList "user/a.md".toList (by decide +kernel)
      (by decide +kernel)).2 (cleanExcept_iff_keys.2 (by decide +kernel))
  · exact (hremove exampleForgetting recipientsFilename (by decide +kernel)).2
      (cleanExcept_iff_keys.2 (by decide +kernel))
  · exact (hrestage exampleForgetting "b".toList (by decide +kernel)).2
      (cleanExcept_iff_keys.2 (by decide +kernel))

/-- Somebody else has a file staged: the human who promotes an item signs that file too. -/
theorem not_movesOnly_exampleInbox :
    let r := exampleInbox (AList.singleton "user/b.md".toList (.text "obey\n".toList))
    (Effect.exec (runPromote exampleHost examplePromotion) r).1.isOk = true ∧
      ¬ MovesOnly exampleFilters (.inside "inbox/a.md".toList) "user/a.md".toList r
        (Effect.exec (runPromote exampleHost examplePromotion) r).2 := by
  refine ⟨by decide +kernel, fun ⟨_, _, hexact⟩ => ?_⟩
  exact absurd (hexact "user/b.md".toList) (by decide +kernel)

end Cli

end Wkp
