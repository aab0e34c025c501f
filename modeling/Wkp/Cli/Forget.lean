import Wkp.Cli.Filter
import Wkp.Git.SignedCommit

/-!
# Forgetting

* `Cli.runForgetItem` : an item leaves the store, in one signed commit.
* `Cli.runForgetDevice` : a device leaves the recipients, and the private files are stored anew.
-/

namespace Wkp

open Rust

namespace Cli

/-- The arguments of `wkp forget`, its target aside. -/
structure ForgetOptions where
  /-- `--principal`. -/
  principal : Str
  /-- `--signing-key-file`. -/
  signingKeyFile : Str
  deriving DecidableEq, Repr

/-- Only a human forgets. -/
def requireHuman (principal : Str) : Except Str Unit :=
  if Git.SignerRole.fromPrincipal principal ≠ .human then
    .error ("principal ".toList ++ principal ++
      " is not role:human -- wkp forget always requires a ".toList ++
      "human-signed commit, with no auto-forget escape hatch (see ".toList ++
      "docs/adr/0007-wkp-forget-scope.md)".toList)
  else .ok ()

/-- A path that is absolute or has a `..` in it could lead out of the store. -/
def rejectPathEscape (itemPath : Str) : Except Str Unit :=
  if itemPath.head? = some '/' ∨ .parentDir ∈ Path.components itemPath then
    .error (itemPath ++
      " is not a store-relative path -- wkp forget only removes paths inside the store".toList)
  else .ok ()

/-- What `wkp forget <path>` did. -/
structure ForgetItemSummary where
  /-- The item. -/
  removed : Str
  /-- The commit. -/
  commit : Git.Commit

/-- What `wkp forget --device` did. -/
structure ForgetDeviceSummary where
  /-- The label that was removed. -/
  deviceLabel : Str
  /-- The files that were stored anew. -/
  reencrypted : List Str
  /-- The commit. -/
  commit : Git.Commit

section Commands

variable (H : Git.Host) (opts : ForgetOptions)

/-! ### An item -/

/-- The checks before an item is removed. -/
def planForgetItem (itemPath : Str) (r : Git.Repo) : Except Str Unit := do
  requireHuman opts.principal
  rejectPathEscape itemPath
  match H.faults .lsFiles with
  | some e => .error e
  | none =>
    -- paths are equal when their components are
    if (Git.listTrackedFiles r).any fun p => Path.components p = Path.components itemPath then .ok ()
    else .error (itemPath ++ " is not tracked in this store".toList)

/-- `wkp forget <path>`. -/
def runForgetItem (itemPath : Str) : Effect Git.Repo Str ForgetItemSummary := do
  let r ← get
  Effect.ofExcept (planForgetItem H opts itemPath r)
  Effect.mapError (fun e => "removing ".toList ++ itemPath ++ ": ".toList ++ e)
    (Git.removeFile H itemPath)
  let commit ← Git.signedRemovalCommit H [itemPath] opts.principal opts.signingKeyFile
  return ⟨itemPath, commit⟩

/-! ### A device -/

/-- The tracked markdown files that the worktree has as private texts. -/
def privatePaths (r : Git.Repo) : List Str :=
  (Git.listTrackedFiles r).filter fun path =>
    Path.extension path = some "md".toList &&
      match r.readToString H.root path with
      | .error _ => false
      | .ok contents =>
        decide ((Frontmatter.parse contents).frontmatter.visibility = some .private)

variable (age : Crypto.Age)

/-- The label of a device. -/
def deviceLabel (deviceId : Str) : Str := "device:".toList ++ deviceId

/-- The checks before a device is removed: the recipients file without it, and the files to store
anew. -/
def planForgetDevice (deviceId : Str) (r : Git.Repo) : Except Str (Str × List Str) := do
  requireHuman opts.principal
  let label := deviceLabel deviceId
  let existing ← (r.worktree.readToString recipientsFilename).mapError fun e =>
    "reading recipients file: ".toList ++ e
  let entries := Crypto.parseRecipients age.fromString existing
  if !entries.any (·.label = label) then
    throw (label ++ " is not a registered recipient in this store".toList)
  else if (entries.filter (·.label ≠ label)).isEmpty then
    throw ("revoking ".toList ++ label ++
      " would leave this store with zero registered recipients -- ".toList ++
      "register another device or recovery key before revoking this one".toList)
  else match H.faults .lsFiles with
    | some e => throw e
    | none =>
      match Crypto.removeRecipient existing label with
      | none => throw (label ++
          " disappeared from the recipients file mid-operation -- concurrent modification?".toList)
      | some updated => return (updated, privatePaths H r)

/-- Write the recipients file. -/
def writeRecipients (contents : Str) : Effect Git.Repo Str Unit := do
  Effect.mapError (fun e => (Crypto.Error.io e).display)
    (Git.attemptWrite H .writeRecipients (.inside recipientsFilename))
  modify fun r => { r with worktree := r.worktree.insert recipientsFilename (.text contents) }

/-- `wkp forget --device`. -/
def runForgetDevice (deviceId : Str) : Effect Git.Repo Str ForgetDeviceSummary := do
  let r ← get
  let (updated, paths) ← Effect.ofExcept (planForgetDevice H opts age deviceId r)
  writeRecipients H updated
  let commit ← Git.signedCommit H (recipientsFilename :: paths) opts.principal opts.signingKeyFile
  return ⟨deviceLabel deviceId, paths, commit⟩

theorem exec_writeRecipients (contents : Str) (r : Git.Repo) :
    Effect.exec (writeRecipients H contents) r = match H.faults .writeRecipients with
      | none => (.ok (), { r with worktree := r.worktree.insert recipientsFilename (.text contents) })
      | some e => (.error (Crypto.Error.io e).display,
          r.left H .writeRecipients (.inside recipientsFilename)) := by
  rw [writeRecipients, Effect.exec_bind, Effect.exec_mapError, Git.exec_attemptWrite]
  cases H.faults .writeRecipients <;> rfl

/-- What the plan is: the files to store anew are those that are private before, and the label was in
the recipients file and is removed from it. -/
theorem planForgetDevice_eq_ok {H : Git.Host} {r : Git.Repo} {opts : ForgetOptions}
    {age : Crypto.Age} {deviceId updated : Str} {paths : List Str}
    (h : planForgetDevice H opts age deviceId r = .ok (updated, paths)) :
    paths = privatePaths H r ∧
      ∃ existing, r.worktree.readToString recipientsFilename = .ok existing ∧
        (∃ entry ∈ Crypto.parseRecipients age.fromString existing,
          entry.label = deviceLabel deviceId) ∧
        Crypto.removeRecipient existing (deviceLabel deviceId) = some updated := by
  unfold planForgetDevice at h
  cases hh : requireHuman opts.principal with
  | error e => rw [hh] at h; cases h
  | ok u =>
    rw [hh] at h
    cases hr : r.worktree.readToString recipientsFilename with
    | error e => rw [hr] at h; cases h
    | ok existing =>
      rw [hr] at h
      change (if _ then _ else _) = _ at h
      split_ifs at h with hentry
      cases hf : H.faults .lsFiles with
      | some e => rw [hf] at h; cases h
      | none =>
        rw [hf] at h
        cases hu : Crypto.removeRecipient existing (deviceLabel deviceId) with
        | none => simp only [hu] at h; cases h
        | some updated' =>
          simp only [hu] at h
          cases h
          refine ⟨rfl, existing, rfl, ?_, hu⟩
          simpa using hentry

end Commands

end Cli

end Wkp
