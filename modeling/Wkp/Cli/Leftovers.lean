import Wkp.Cli.Signed

/-!
# What a failed command leaves

The commands that sign write, remove and stage before they commit, and undo none of it.

* `Cli.Untouched` : the files of the store and its index are as they were.
* `Cli.untouched_iff` : a command that failed left them so exactly when it failed early.
-/

namespace Wkp

open Rust Git

namespace Cli

/-- The worktree holds what it held. -/
def SameFiles (r r' : Repo) : Prop := ∀ p, r'.worktree.lookup p = r.worktree.lookup p

/-- The worktree and the index hold what they held. -/
def Untouched (r r' : Repo) : Prop :=
  SameFiles r r' ∧ ∀ p, r'.index.lookup p = r.index.lookup p

/-- The directories of the destination cannot be created, or its temporary file cannot be written and
nothing is left of it in the store. -/
def WriteIsRefused (H : Host) (dest : Str) (r : Repo) : Prop :=
  let created := (Effect.exec (createParent H dest) r).2
  (Effect.exec (createParent H dest) r).1.isOk = false ∨
    (WriteFails H dest created ∧
      ∀ temp, created.walk H.root (tempComponents H dest) = some temp →
        created.isDir H.root temp = false → SameFiles r (created.left H .writeTemp temp))

/-- The repository with the item written to its destination through a temporary file. -/
def written (r : Repo) (temp dest : Location) (contents : Str) : Repo :=
  (r.setFile temp none).setFile dest (some (.text contents))

/-- A promotion that goes wrong does so before anything in the store changes: the checks fail, or
the destination cannot be written; or else what was written made no difference to the store, since
it is not in it or was there already, and nothing is removed from it. -/
def PromoteStopsEarly (H : Host) (opts : PromoteOptions) (r : Repo) : Prop :=
  ∀ contents dest, planPromote H opts r = .ok (contents, dest) →
    let created := (Effect.exec (createParent H dest) r).2
    WriteIsRefused H dest r ∨
      ∃ temp, created.walk H.root (tempComponents H dest) = some temp ∧ ¬ WriteFails H dest created ∧
        ((RenameFails H dest created ∧ SameFiles r (r.setFile temp (some (.text contents)))) ∨
          (¬ RenameFails H dest created ∧
            SameFiles r (written r temp (target H.root dest) contents) ∧
            (RemoveFails H opts.inboxPath (written created temp (target H.root dest) contents) ∨
              ∀ p, target H.root opts.inboxPath ≠ .inside p)))

/-- A removal that goes wrong does so before the file is gone: the checks fail, or it cannot be
removed. -/
def ForgetItemStopsEarly (H : Host) (opts : ForgetOptions) (item : Str) (r : Repo) : Prop :=
  planForgetItem H opts item r = .ok () → RemoveFails H item r

/-- A revocation that goes wrong does so before the recipients file is written: the checks fail, or
it cannot be written and is left as it was. -/
def ForgetDeviceStopsEarly (H : Host) (opts : ForgetOptions) (age : Crypto.Age) (deviceId : Str)
    (r : Repo) : Prop :=
  ∀ plan, planForgetDevice H opts age deviceId r = .ok plan →
    (H.faults .writeRecipients).isSome ∧
      H.leaves .writeRecipients (r.worktree.lookup recipientsFilename) =
        r.worktree.lookup recipientsFilename

variable {H : Host} {r r' : Repo}

/-! ### Staging and committing leave the files alone -/

theorem keeps_removeFromIndex (w : Files) (path : Str) :
    Effect.Keeps (fun s : Repo => s.worktree = w) (removeFromIndex H path) := by
  refine (Effect.Keeps.attempt _).bind fun _ s hs => ?_
  rw [Effect.exec_get_bind]
  split
  · exact hs
  · split
    · split_ifs <;> exact hs
    · split_ifs
      · split <;> exact hs
      · exact hs

theorem keeps_stageFile (w : Files) (path : Str) :
    Effect.Keeps (fun s : Repo => s.worktree = w) (stageFile H path) := by
  refine Effect.Keeps.bind ?_ fun blob => ?_
  · refine (Effect.Keeps.attempt _).bind fun _ s hs => ?_
    rw [Effect.exec_get_bind]
    split
    · exact hs
    · split <;> exact hs
  · refine (Effect.Keeps.attempt _).bind fun _ s hs => ?_
    rw [Effect.exec_get_bind]
    split_ifs <;> exact hs

theorem keeps_commitCurrentIndex (w : Files) (principal key : Str) :
    Effect.Keeps (fun s : Repo => s.worktree = w) (commitCurrentIndex H principal key) := by
  refine Effect.Keeps.bind ?_ fun tree => ?_
  · refine (Effect.Keeps.attempt _).bind fun _ s hs => ?_
    rw [Effect.exec_get_bind]
    split_ifs <;> exact hs
  · intro s hs
    rw [Effect.exec_get_bind]
    refine Effect.Keeps.bind (I := fun s : Repo => s.worktree = w) (.attempt _) (fun _ => ?_) s hs
    split
    · exact .throw _
    · exact (Effect.Keeps.attempt _).bind fun _ t _ => hs

theorem keeps_signedCommit (w : Files) (paths : List Str) (principal key : Str) :
    Effect.Keeps (fun s : Repo => s.worktree = w) (signedCommit H paths principal key) := by
  unfold signedCommit
  split_ifs
  · exact .throw _
  · exact (Effect.Keeps.forM fun path _ => keeps_stageFile w path).bind fun _ =>
      keeps_commitCurrentIndex w principal key

theorem keeps_signedRemovalCommit (w : Files) (paths : List Str) (principal key : Str) :
    Effect.Keeps (fun s : Repo => s.worktree = w) (signedRemovalCommit H paths principal key) := by
  unfold signedRemovalCommit
  split_ifs
  · exact .throw _
  · exact (Effect.Keeps.forM fun path _ => keeps_removeFromIndex w path).bind fun _ =>
      keeps_commitCurrentIndex w principal key

/-! ### An item -/

theorem Untouched.refl (r : Repo) : Untouched r r := ⟨fun _ => rfl, fun _ => rfl⟩

theorem exists_descend {cs : List Component} (h : .parentDir ∉ cs) (acc : List Str) :
    ∃ names, Path.descend acc cs = some names := by
  induction cs generalizing acc with
  | nil => exact ⟨acc, rfl⟩
  | cons c cs ih =>
    rw [List.mem_cons, not_or] at h
    cases c with
    | parentDir => exact absurd rfl h.1
    | normal name => exact ih h.2 (acc ++ [name])
    | rootDir | curDir => exact ih h.2 acc

theorem exists_target_of_planForgetItem {opts : ForgetOptions} {item : Str}
    (h : planForgetItem H opts item r = .ok ()) : ∃ p, target H.root item = .inside p := by
  unfold planForgetItem at h
  cases hh : requireHuman opts.principal with
  | error e => rw [hh] at h; cases h
  | ok _ =>
    rw [hh] at h
    cases hr : rejectPathEscape item with
    | error e =>
      change (do let _ ← rejectPathEscape item; _) = _ at h
      rw [hr] at h
      cases h
    | ok _ =>
      rw [rejectPathEscape] at hr
      split_ifs at hr with hescape
      rw [not_or] at hescape
      obtain ⟨names, hnames⟩ := exists_descend hescape.2 []
      refine ⟨join ['/'] names, target_of_gitPath ?_⟩
      rw [gitPath, if_neg hescape.1, hnames]
      rfl

theorem untouched_runForgetItem_iff {opts : ForgetOptions} {item e : Str}
    (h : Effect.exec (runForgetItem H opts item) r = (.error e, r')) :
    Untouched r r' ↔ ForgetItemStopsEarly H opts item r := by
  rw [runForgetItem, Effect.exec_get_bind, Effect.exec_ofExcept_bind_eq_error] at h
  rcases h with ⟨hplan, rfl⟩ | ⟨_, hplan, h⟩
  · refine iff_of_true (.refl r) fun hok => ?_
    rw [hplan] at hok
    cases hok
  rw [Effect.exec_bind_eq_error] at h
  rcases h with h | ⟨_, r₁, hremove, h⟩
  · obtain ⟨e', h⟩ := Effect.exec_mapError_eq_error h
    obtain ⟨rfl, hfails⟩ := exec_removeFile_eq_error h
    exact iff_of_true (.refl r') fun _ => hfails
  -- once the file is gone it stays so
  obtain ⟨hworks, hfile, places, rfl⟩ :=
    exec_removeFile_eq_ok (Effect.exec_mapError_eq_ok.1 hremove)
  refine iff_of_false (fun hu => ?_) fun hs => hworks (hs hplan)
  obtain ⟨p, hp⟩ := exists_target_of_planForgetItem hplan
  have hkeep := keeps_signedRemovalCommit (H := H) (r.setFile (target H.root item) none).worktree
    [item] opts.principal opts.signingKeyFile
    ((r.setFile (target H.root item) none).addDirs places) rfl
  rw [Effect.exec_bind_eq_error] at h
  rcases h with h | ⟨commit, r₂, -, h⟩
  · rw [h, hp] at hkeep
    have hgone := hu.1 p
    rw [show r'.worktree = _ from hkeep] at hgone
    rw [hp] at hfile
    have hnone := Repo.fileAt_setFile (r := r) (.inside p) (.inside p) none
    rw [if_pos rfl] at hnone
    rw [show r.fileAt (.inside p) = none from hgone.symm.trans hnone] at hfile
    cases hfile
  · cases h

/-! ### A promotion -/

theorem exec_createParent_eq_error {path e : Str}
    (h : Effect.exec (createParent H path) r = (.error e, r')) : r' = r := by
  rw [createParent] at h
  split at h
  · exact exec_createDirAll_eq_error h
  · cases h

theorem worktree_written (r r' : Repo) (h : r'.worktree = r.worktree) (temp dest : Location)
    (contents : Str) : (written r' temp dest contents).worktree =
      (written r temp dest contents).worktree := by
  cases temp <;> cases dest <;> simp [written, Repo.setFile, h]

/-- After the item was removed, the rest leaves the files as they are, and gets nowhere at all when
the item was not in the store. -/
theorem exec_promoteRest_eq_error {opts : PromoteOptions} {dest e : Str}
    (h : Effect.exec (do
      removeFromIndex H opts.inboxPath
      let commit ← signedCommit H [dest] opts.principal opts.signingKeyFile
      return (⟨opts.inboxPath, dest, commit⟩ : PromoteSummary)) r = (.error e, r')) :
    r'.worktree = r.worktree ∧
      ((∀ p, target H.root opts.inboxPath ≠ .inside p) → r' = r) := by
  rw [Effect.exec_bind_eq_error] at h
  rcases h with h | ⟨_, r₁, hindex, h⟩
  · have hkeep := keeps_removeFromIndex (H := H) r.worktree opts.inboxPath r rfl
    rw [h] at hkeep
    refine ⟨hkeep, fun hout => ?_⟩
    have hgit : gitPath H.root opts.inboxPath = none := by
      cases hg : gitPath H.root opts.inboxPath with
      | none => rfl
      | some p => exact absurd (target_of_gitPath hg) (hout p)
    rw [removeFromIndex, Effect.exec_attempt_bind_eq_error, Effect.exec_get_bind, hgit] at h
    rcases h with ⟨-, rfl⟩ | ⟨-, h⟩
    · rfl
    · cases h
      rfl
  · obtain ⟨p, hgit, rfl⟩ := exec_removeFromIndex_eq_ok hindex
    refine ⟨?_, fun hout => absurd (target_of_gitPath hgit) (hout p)⟩
    rw [Effect.exec_bind_eq_error] at h
    rcases h with h | ⟨commit, r₂, -, h⟩
    · have hkeep := keeps_signedCommit (H := H) r.worktree [dest] opts.principal
        opts.signingKeyFile _ (rfl : Repo.worktree { r with
          index := Repo.setAt r.index p ((r.cleaned H.filters p (.inside p)).map .staged) } = _)
      rwa [h] at hkeep
    · cases h

/-- What is left of the temporary file makes the difference when it cannot be written. -/
theorem untouched_left_iff {dest : Str} {temp : Location} {places : List Location}
    (htemp : (r.addDirs places).walk H.root (tempComponents H dest) = some temp)
    (hdir : (r.addDirs places).isDir H.root temp = false) :
    Untouched r ((r.addDirs places).left H .writeTemp temp) ↔
      ∀ temp', (r.addDirs places).walk H.root (tempComponents H dest) = some temp' →
        (r.addDirs places).isDir H.root temp' = false →
          SameFiles r ((r.addDirs places).left H .writeTemp temp') := by
  have hindex : ((r.addDirs places).left H .writeTemp temp).index = r.index := by
    rw [Repo.left, Repo.index_setFile, Repo.index_addDirs]
  rw [Untouched, hindex]
  constructor
  · rintro ⟨hsame, -⟩ temp' htemp' -
    obtain rfl := Option.some.inj (htemp.symm.trans htemp')
    exact hsame
  · exact fun hsame => ⟨hsame temp htemp hdir, fun _ => rfl⟩

/-- Once the destination is written, what is left to decide is whether that made a difference, and
whether the item is gone. -/
theorem untouched_written_iff {opts : PromoteOptions} {contents dest e : Str} {temp : Location}
    {places : List Location} (hplan : planPromote H opts r = .ok (contents, dest))
    (h : Effect.exec (do
      Effect.mapError (fun e => "removing ".toList ++ opts.inboxPath ++ ": ".toList ++ e)
        (removeFile H opts.inboxPath)
      removeFromIndex H opts.inboxPath
      let commit ← signedCommit H [dest] opts.principal opts.signingKeyFile
      return (⟨opts.inboxPath, dest, commit⟩ : PromoteSummary))
        (written (r.addDirs places) temp (target H.root dest) contents) = (.error e, r')) :
    Untouched r r' ↔ SameFiles r (written r temp (target H.root dest) contents) ∧
      (RemoveFails H opts.inboxPath (written (r.addDirs places) temp (target H.root dest) contents) ∨
        ∀ p, target H.root opts.inboxPath ≠ .inside p) := by
  generalize hr₂ : written (r.addDirs places) temp (target H.root dest) contents = r₂ at h ⊢
  have hsame : ∀ s : Repo, s.worktree = r₂.worktree →
      (SameFiles r s ↔ SameFiles r (written r temp (target H.root dest) contents)) := by
    intro s hs
    rw [SameFiles, SameFiles, hs, ← hr₂, worktree_written r (r.addDirs places) rfl]
  have hindex : r₂.index = r.index := by
    rw [← hr₂, written, Repo.index_setFile, Repo.index_setFile, Repo.index_addDirs]
  rw [Effect.exec_bind_eq_error] at h
  rcases h with h | ⟨_, r₃, hremove, h⟩
  · obtain ⟨e', h⟩ := Effect.exec_mapError_eq_error h
    obtain ⟨rfl, hfails⟩ := exec_removeFile_eq_error h
    rw [Untouched, hsame r' rfl, hindex]
    exact ⟨fun hu => ⟨hu.1, .inl hfails⟩, fun hu => ⟨hu.1, fun _ => rfl⟩⟩
  · obtain ⟨hremoves, -, places', rfl⟩ :=
      exec_removeFile_eq_ok (Effect.exec_mapError_eq_ok.1 hremove)
    obtain ⟨hfiles, hstuck⟩ := exec_promoteRest_eq_error h
    rw [Repo.worktree_addDirs] at hfiles
    by_cases hout : ∀ p, target H.root opts.inboxPath ≠ .inside p
    · -- git does not know the item
      have hout' : (r₂.setFile (target H.root opts.inboxPath) none).worktree = r₂.worktree := by
        cases ht : target H.root opts.inboxPath with
        | inside p => exact absurd ht (hout p)
        | outside names => rfl
      rw [Untouched, hsame r' (hfiles.trans hout'), hstuck hout, Repo.index_addDirs,
        Repo.index_setFile, hindex]
      exact ⟨fun hu => ⟨hu.1, .inr hout⟩, fun hu => ⟨hu.1, fun _ => rfl⟩⟩
    · refine iff_of_false (fun hu => ?_) fun hu => hu.2.elim hremoves hout
      -- the item is gone
      rw [not_forall] at hout
      obtain ⟨p, hp⟩ := hout
      rw [not_not] at hp
      have hitem := fileAt_of_planPromote hplan
      have hgone := Repo.fileAt_setFile (r := r₂) (.inside p) (.inside p) none
      rw [if_pos rfl] at hgone
      have hsamep := hu.1 p
      rw [hfiles, hp] at hsamep
      rw [hp, show r.fileAt (.inside p) = none from hsamep.symm.trans hgone] at hitem
      cases hitem

theorem untouched_runPromote_iff {opts : PromoteOptions} {e : Str}
    (h : Effect.exec (runPromote H opts) r = (.error e, r')) :
    Untouched r r' ↔ PromoteStopsEarly H opts r := by
  rw [runPromote, Effect.exec_get_bind, Effect.exec_ofExcept_bind_eq_error] at h
  rcases h with ⟨hplan, rfl⟩ | ⟨⟨contents, dest⟩, hplan, h⟩
  · refine iff_of_true (.refl r) fun contents dest hok => ?_
    rw [hplan] at hok
    cases hok
  have hearly : PromoteStopsEarly H opts r ↔ _ :=
    ⟨fun h => h contents dest hplan, fun h contents' dest' hplan' => by
      rw [hplan] at hplan'
      cases hplan'
      exact h⟩
  rw [hearly]
  dsimp only at h ⊢
  rw [Effect.exec_bind_eq_error] at h
  rcases h with h | ⟨_, r₁, hparent, h⟩
  · obtain rfl := exec_createParent_eq_error h
    exact iff_of_true (.refl r') (.inl (.inl (by rw [h]; rfl)))
  obtain ⟨places, rfl⟩ := exec_createParent_eq_ok hparent
  rw [WriteIsRefused, hparent]
  rw [Effect.exec_bind_eq_error] at h
  rcases h with h | ⟨_, r₂, hwrite, h⟩
  · rcases exec_atomicWrite_eq_error h with
      ⟨hfails, ⟨rfl, hdirs⟩ | ⟨temp, htemp, hdir, rfl⟩⟩ | ⟨temp, htemp, rfl, hwrites, hrename⟩
    · refine iff_of_true ⟨fun _ => rfl, fun _ => rfl⟩ (.inl (.inr ⟨hfails, fun temp ht hdir => ?_⟩))
      rw [hdirs temp ht] at hdir
      cases hdir
    · rw [untouched_left_iff htemp hdir]
      constructor
      · exact fun hsame => .inl (.inr ⟨hfails, hsame⟩)
      · rintro ((hf | ⟨-, hsame⟩) | ⟨-, -, hwrites, -⟩)
        · cases hf
        · exact hsame
        · exact absurd hfails hwrites
    · -- the temporary file is left
      have hindex : ((r.addDirs places).setFile temp (some (.text contents))).index = r.index := by
        rw [Repo.index_setFile, Repo.index_addDirs]
      have hfiles : ((r.addDirs places).setFile temp (some (.text contents))).worktree =
          (r.setFile temp (some (.text contents))).worktree := by cases temp <;> rfl
      rw [Untouched, SameFiles, hfiles, hindex]
      constructor
      · exact fun hu => .inr ⟨temp, htemp, hwrites, .inl ⟨hrename, hu.1⟩⟩
      · rintro ((hf | hf) | ⟨temp', htemp', -, hcase⟩)
        · cases hf
        · exact absurd hf.1 hwrites
        · obtain rfl := Option.some.inj (htemp.symm.trans htemp')
          rcases hcase with ⟨-, hsame⟩ | ⟨hnot, -⟩
          · exact ⟨hsame, fun _ => rfl⟩
          · exact absurd hrename hnot
  · obtain ⟨temp, htemp, hr₂, hwrites, hrename⟩ := exec_atomicWrite_eq_ok hwrite
    change r₂ = written (r.addDirs places) temp (target H.root dest) contents at hr₂
    subst hr₂
    rw [untouched_written_iff hplan h]
    constructor
    · exact fun hs => .inr ⟨temp, htemp, hwrites, .inr ⟨hrename, hs⟩⟩
    · rintro ((hf | hf) | ⟨temp', htemp', -, hcase⟩)
      · cases hf
      · exact absurd hf.1 hwrites
      · obtain rfl := Option.some.inj (htemp.symm.trans htemp')
        rcases hcase with ⟨hf, -⟩ | ⟨-, hs⟩
        · exact absurd hf hrename
        · exact hs

/-! ### A device -/

theorem sameFiles_left_iff {step : Step} {path : Str} : SameFiles r (r.left H step (.inside path)) ↔
    H.leaves step (r.worktree.lookup path) = r.worktree.lookup path := by
  have hlookup : ∀ p, (r.left H step (.inside path)).worktree.lookup p =
      if p = path then H.leaves step (r.worktree.lookup path) else r.worktree.lookup p :=
    fun p => Repo.lookup_setAt r.worktree path p _
  constructor
  · intro h
    have hpath := h path
    rwa [hlookup, if_pos rfl] at hpath
  · intro h p
    rw [hlookup]
    split_ifs with hp
    · rw [hp, h]
    · rfl

theorem untouched_runForgetDevice_iff {opts : ForgetOptions} {age : Crypto.Age} {deviceId e : Str}
    (h : Effect.exec (runForgetDevice H opts age deviceId) r = (.error e, r')) :
    Untouched r r' ↔ ForgetDeviceStopsEarly H opts age deviceId r := by
  rw [runForgetDevice, Effect.exec_get_bind, Effect.exec_ofExcept_bind_eq_error] at h
  rcases h with ⟨hplan, rfl⟩ | ⟨⟨updated, paths⟩, hplan, h⟩
  · refine iff_of_true (.refl r) fun plan hok => ?_
    rw [hplan] at hok
    cases hok
  dsimp only at h
  rw [Effect.exec_bind_eq_error] at h
  rcases h with h | ⟨_, r₁, hwrite, h⟩
  · -- the recipients file is what the failed write left
    rw [exec_writeRecipients] at h
    cases hfault : H.faults .writeRecipients with
    | none => rw [hfault] at h; cases h
    | some e' =>
      rw [hfault] at h
      cases h
      have hearly : ForgetDeviceStopsEarly H opts age deviceId r ↔
          H.leaves .writeRecipients (r.worktree.lookup recipientsFilename) =
            r.worktree.lookup recipientsFilename := by
        constructor
        · exact fun h => (h _ hplan).2
        · exact fun h _ _ => ⟨by rw [hfault]; rfl, h⟩
      rw [hearly, Untouched, sameFiles_left_iff, Repo.left, Repo.index_setFile]
      exact and_iff_left fun _ => rfl
  · rw [exec_writeRecipients] at hwrite
    cases hfault : H.faults .writeRecipients with
    | some e' => rw [hfault] at hwrite; cases hwrite
    | none =>
    rw [hfault] at hwrite
    obtain rfl := (Prod.mk.inj hwrite).2
    refine iff_of_false (fun hu => ?_) fun hs => ?_
    · obtain ⟨existing, hread, ⟨entry, hentry, hlabel⟩, hremove⟩ :=
        (planForgetDevice_eq_ok hplan).2
      have hkeep := keeps_signedCommit (H := H)
        (r.worktree.insert recipientsFilename (.text updated)) (recipientsFilename :: paths)
        opts.principal opts.signingKeyFile
        { r with worktree := r.worktree.insert recipientsFilename (.text updated) } rfl
      rw [Effect.exec_bind_eq_error] at h
      rcases h with h | ⟨commit, r₂, -, h⟩
      · rw [h] at hkeep
        have hsame := hu.1 recipientsFilename
        rw [show r'.worktree = _ from hkeep, AList.lookup_insert] at hsame
        rw [Files.readToString, ← hsame] at hread
        obtain rfl : updated = existing := Except.ok.inj hread
        have hparse := Crypto.parseRecipients_removeRecipient age.fromString hremove
        rw [hparse, List.mem_filter] at hentry
        exact absurd hlabel (of_decide_eq_true hentry.2)
      · cases h
    · have := (hs _ hplan).1
      rw [hfault] at this
      cases this

/-- **A command that failed left the store as it was exactly when it failed early**: before it wrote
or removed anything.  Nothing that it did is undone. -/
theorem untouched_iff (H : Host) (age : Crypto.Age) (r : Repo) :
    (∀ opts, (Effect.exec (runPromote H opts) r).1.isOk = false →
      (Untouched r (Effect.exec (runPromote H opts) r).2 ↔ PromoteStopsEarly H opts r)) ∧
    (∀ opts item, (Effect.exec (runForgetItem H opts item) r).1.isOk = false →
      (Untouched r (Effect.exec (runForgetItem H opts item) r).2 ↔
        ForgetItemStopsEarly H opts item r)) ∧
    ∀ opts deviceId, (Effect.exec (runForgetDevice H opts age deviceId) r).1.isOk = false →
      (Untouched r (Effect.exec (runForgetDevice H opts age deviceId) r).2 ↔
        ForgetDeviceStopsEarly H opts age deviceId r) := by
  refine ⟨fun opts hfail => ?_, fun opts item hfail => ?_, fun opts deviceId hfail => ?_⟩
  · obtain ⟨e, h⟩ := Effect.exists_exec_eq_error hfail
    exact untouched_runPromote_iff h
  · obtain ⟨e, h⟩ := Effect.exists_exec_eq_error hfail
    exact untouched_runForgetItem_iff h
  · obtain ⟨e, h⟩ := Effect.exists_exec_eq_error hfail
    exact untouched_runForgetDevice_iff h

/-- A host that has no key to sign with. -/
def exampleKeyless : Host :=
  { exampleHost with sign := fun _ _ => .error "error: No private key found".toList }

theorem untouched_iff_exampleInbox :
    Untouched (exampleInbox ∅) (Effect.exec (runPromote exampleKeyless
        { examplePromotion with inboxPath := "inbox/b.md".toList }) (exampleInbox ∅)).2 ∧
      Untouched (exampleInbox ∅) (Effect.exec (runForgetItem exampleKeyless exampleForgetting
        "b.md".toList) (exampleInbox ∅)).2 ∧
      Untouched (exampleInbox ∅) (Effect.exec (runForgetDevice exampleKeyless exampleForgetting
        Crypto.exampleAge "c".toList) (exampleInbox ∅)).2 := by
  obtain ⟨hpromote, hitem, hdevice⟩ :=
    untouched_iff exampleKeyless Crypto.exampleAge (exampleInbox ∅)
  refine ⟨(hpromote _ (by decide +kernel)).2 fun contents dest hplan => ?_,
    (hitem _ _ (by decide +kernel)).2 fun hplan => ?_,
    (hdevice _ _ (by decide +kernel)).2 fun plan hplan => ?_⟩
  · have : (planPromote exampleKeyless { examplePromotion with inboxPath := "inbox/b.md".toList }
        (exampleInbox ∅)).isOk = false := by decide +kernel
    rw [hplan] at this
    cases this
  · have : (planForgetItem exampleKeyless exampleForgetting "b.md".toList
        (exampleInbox ∅)).isOk = false := by decide +kernel
    rw [hplan] at this
    cases this
  · have : (planForgetDevice exampleKeyless exampleForgetting Crypto.exampleAge "c".toList
        (exampleInbox ∅)).isOk = false := by decide +kernel
    rw [hplan] at this
    cases this

/-- Without a key to sign with a promotion fails, and the item has left the inbox all the same. -/
theorem not_untouched_exampleInbox :
    (Effect.exec (runPromote exampleKeyless examplePromotion) (exampleInbox ∅)).1.isOk = false ∧
      ¬ Untouched (exampleInbox ∅)
        (Effect.exec (runPromote exampleKeyless examplePromotion) (exampleInbox ∅)).2 := by
  refine ⟨by decide +kernel, fun hu => ?_⟩
  exact absurd (hu.1 "inbox/a.md".toList) (by decide +kernel)

end Cli

end Wkp
