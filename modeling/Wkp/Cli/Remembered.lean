import Wkp.Cli.Promote
import Wkp.Cli.Remember
import Wkp.Core.Secrets
import Wkp.Core.Spliced
import Wkp.Git.Branches

/-!
# `wkp remember`

* `Cli.runRememberWithBody` : scan the body, write the item under `inbox/`, and commit it to the
  branch of the device.
* `Cli.fileAt_of_writeMemory` : what is written when nothing fails.
-/

namespace Wkp

open Rust

namespace Cli

/-- What `wkp remember` is asked to do.  The store is the one that it runs on. -/
structure RememberOptions where
  /-- `--type`. -/
  itemType : Str
  /-- `--scope`. -/
  scope : Option Str
  /-- `--title`. -/
  title : Option Str
  /-- `--principal`. -/
  principal : Str
  /-- `--signing-key-file`. -/
  signingKeyFile : Str
  /-- `--session`. -/
  session : Option Str
  deriving DecidableEq, Repr

/-- What `wkp remember` did. -/
structure RememberSummary where
  /-- The path of the item. -/
  relativePath : Str
  /-- The commit. -/
  commit : Git.Commit

namespace RememberOptions

variable (opts : RememberOptions)

/-- The title of the item, its type without one. -/
def titleOrType : Str := opts.title.getD opts.itemType

/-- The frontmatter of the item. -/
def frontmatterBlock (T : CharTables) : Str :=
  rememberFrontmatterBlock T opts.titleOrType opts.itemType opts.scope opts.principal opts.session

/-- The file that is written. -/
def content (T : CharTables) (body : Str) : Str :=
  opts.frontmatterBlock T ++ "\n".toList ++ trim body ++ "\n".toList

/-- The path of the item. -/
def relativePath (nanos : Str) : Str :=
  "inbox/".toList ++ slugify opts.titleOrType ++ "-".toList ++ nanos ++ ".md".toList

/-- The subject of the commit. -/
def subject : Str := "remember: ".toList ++ opts.titleOrType

end RememberOptions

/-- The error that refuses a body. -/
def refusal (findings : List Secrets.Finding) : Str :=
  "refusing to write: content matches a credential pattern\n".toList ++
    findings.flatMap fun finding =>
      "  [".toList ++ finding.rule ++ "] ...".toList ++ finding.redactedExcerpt ++ "...\n".toList

section Command

variable (H : Git.Host) (T : CharTables) (S : Secrets.Scanner) (nanos : Str)
  (opts : RememberOptions) (body : Str)

/-- `wkp remember` up to the file that it writes. -/
def writeMemory : Effect Git.Repo Str Str := do
  if Secrets.scan S body ≠ [] then throw (refusal (Secrets.scan S body))
  else
    createParent H (opts.relativePath nanos)
    Git.atomicWrite H (opts.relativePath nanos) (opts.content T body)
    return opts.relativePath nanos

/-- `wkp remember`, with the body that it reads, at a time; `generated` is a new name for the
device. -/
def runRememberWithBody (ignored : Git.Repo → Str → Bool) (generated : Except Str Str) :
    Effect Git.Branches Str RememberSummary := do
  let path ← Git.onRepo (writeMemory H T S nanos opts body)
  let deviceId ← Git.onRepo (Git.deviceId H generated)
  let commit ← Git.commitToDeviceBranch H ignored deviceId [path] opts.principal
    opts.signingKeyFile
  return ⟨path, commit⟩

end Command

variable {H : Git.Host} {T : CharTables} {S : Secrets.Scanner} {nanos : Str}
  {opts : RememberOptions} {body : Str}

/-- The item is written only when nothing is found in its body, and holds the content then. -/
theorem fileAt_of_writeMemory {r r' : Git.Repo} {path : Str}
    (h : Effect.exec (writeMemory H T S nanos opts body) r = (.ok path, r')) :
    Secrets.scan S body = [] ∧ path = opts.relativePath nanos ∧
      r'.fileAt (Git.target H.root path) = some (.text (opts.content T body)) := by
  rw [writeMemory] at h
  split_ifs at h with hscan
  · cases h
  rw [Effect.exec_bind_eq_ok] at h
  obtain ⟨_, r₁, -, h⟩ := h
  rw [Effect.exec_bind_eq_ok] at h
  obtain ⟨_, r₂, hwrite, h⟩ := h
  obtain ⟨temp, -, rfl, -⟩ := Git.exec_atomicWrite_eq_ok hwrite
  cases h
  refine ⟨not_not.1 hscan, rfl, ?_⟩
  rw [Git.Repo.fileAt_setFile, if_pos rfl]

theorem exists_writeMemory {ignored : Git.Repo → Str → Bool} {generated : Except Str Str}
    {s s' : Git.Branches} {summary : RememberSummary}
    (h : Effect.exec (runRememberWithBody H T S nanos opts body ignored generated) s =
      (.ok summary, s')) :
    ∃ r, Effect.exec (writeMemory H T S nanos opts body) s.repo = (.ok summary.relativePath, r) := by
  rw [runRememberWithBody, Effect.exec_bind_eq_ok] at h
  obtain ⟨path, s₁, hwrite, h⟩ := h
  rw [Effect.exec_bind_eq_ok] at h
  obtain ⟨_, s₂, -, h⟩ := h
  rw [Effect.exec_bind_eq_ok] at h
  obtain ⟨commit, s₃, -, h⟩ := h
  cases h
  rw [Git.onRepo, Effect.exec_focus] at hwrite
  exact ⟨_, Prod.ext (Prod.mk.inj hwrite).1 rfl⟩

end Cli

end Wkp
