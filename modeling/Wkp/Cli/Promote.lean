import Wkp.Core.Frontmatter
import Wkp.Git.SignedCommit

/-!
# Promoting an item

* `Cli.readPromoteAutoList` : who may promote without being human, by the text of the configuration.
* `Cli.inferPromoteDestination` : where an item goes when nobody says.
* `Cli.runPromote` : an item leaves the inbox, in one signed commit.
-/

namespace Wkp

open Rust

namespace Cli

/-! ### The configuration -/

/-- `str::trim_matches`, for one character. -/
def trimMatches (c : Char) (s : Str) : Str := (s.dropWhile (· = c)).rdropWhile (· = c)

/-- The elements of the array on a line `auto = [...]`; of any other line, none. -/
def autoEntries (line : Str) : List Str :=
  let inner := do
    let rest ← stripPrefix line "auto".toList
    let rest ← stripPrefix (trimStart rest) ['=']
    let rest ← stripPrefix (trim rest) ['[']
    stripSuffix rest [']']
  match inner with
  | none => []
  | some inner =>
    ((split ',' inner).map fun part => trimMatches '\'' (trimMatches '"' (trim part))).filter
      (· ≠ [])

/-- The loop over the lines: whether they are in the section, and those that are left. -/
def promoteAutoLoop : Bool → List Str → List Str
  | _, [] => []
  | inPromoteSection, line :: rest =>
    let trimmed := trim line
    if trimmed.head? = some '[' then
      promoteAutoLoop (decide (trimmed = "[promote]".toList)) rest
    else if !inPromoteSection then promoteAutoLoop inPromoteSection rest
    else autoEntries trimmed ++ promoteAutoLoop inPromoteSection rest

/-- The principals on the `[promote] auto` list of a configuration. -/
def promoteAutoList (contents : Str) : List Str := promoteAutoLoop false (lines contents)

/-- The configuration of a store. -/
def configFilename : Str := ".wkp/config.toml".toList

/-- The principals on the list of a store; none when it has no configuration that can be read. -/
def readPromoteAutoList (store : Files) : List Str :=
  match store.readToString configFilename with
  | .error _ => []
  | .ok contents => promoteAutoList contents

/-! ### The destination -/

/-- The directory under `projects/` that a file or a directory is in. -/
def projectOf (path : Str) : Option Str := (stripPrefix path "projects/".toList).map fun rest =>
  rest.takeWhile (· ≠ '/')

/-- The directories right under `projects/`, sorted. -/
def listProjectDirs (r : Git.Repo) : List Str :=
  let ofFiles := (r.worktree.keys.map Git.dirPath).filterMap projectOf
  Git.sortPaths ((ofFiles ++ r.dirs.filterMap projectOf).filter (· ≠ [])).dedup

/-- Where an item goes by its scope. -/
def inferPromoteDestination (r : Git.Repo) (inboxPath : Str) (scope : Option Scope) :
    Except Str Str :=
  match Path.fileName inboxPath with
  | none => .error (inboxPath ++ " has no file name".toList)
  | some basename =>
    match scope with
    | some .user => .ok ("user/".toList ++ basename)
    | some .project =>
      match listProjectDirs r with
      | [only] => .ok ("projects/".toList ++ only ++ '/' :: basename)
      | [] => .error ("scope: project but this store has no projects/<name>/ directory yet -- ".toList ++
          "use --to to specify the destination".toList)
      | dirs => .error ("scope: project but this store has multiple projects (".toList ++
          join ", ".toList dirs ++ ") -- use --to to specify which one".toList)
    | some .org =>
      .error "scope: org has no default destination -- use --to to specify one".toList
    | some (.other other) => .error ("unrecognized scope: ".toList ++ other ++
        " -- use --to to specify a destination".toList)
    | none =>
      .error "no scope: field to infer a destination from -- use --to to specify one".toList

/-! ### The command -/

/-- The arguments of `wkp promote`. -/
structure PromoteOptions where
  /-- The item, by its path from the store. -/
  inboxPath : Str
  /-- `--to`. -/
  «to» : Option Str
  /-- `--principal`. -/
  principal : Str
  /-- `--signing-key-file`. -/
  signingKeyFile : Str
  deriving DecidableEq, Repr

/-- What `wkp promote` did. -/
structure PromoteSummary where
  /-- The path that the item left. -/
  «from» : Str
  /-- The path that it has now. -/
  «to» : Str
  /-- The commit. -/
  commit : Git.Commit

section Command

variable (H : Git.Host) (opts : PromoteOptions)

/-- The principal may promote. -/
def mayPromote (r : Git.Repo) : Bool :=
  Git.SignerRole.fromPrincipal opts.principal = .human ||
    (readPromoteAutoList r.worktree).any (· = opts.principal)

/-- Where the item goes: to the given path, or by its scope. -/
def promoteDestination (r : Git.Repo) (contents : Str) : Except Str Str :=
  match opts.«to» with
  | some dest => .ok dest
  | none =>
    inferPromoteDestination r opts.inboxPath (Frontmatter.parse contents).frontmatter.scope

/-- The checks before anything is written: the text of the item, and where it goes. -/
def planPromote (r : Git.Repo) : Except Str (Str × Str) := do
  if !"inbox/".toList.isPrefixOf opts.inboxPath then
    throw (opts.inboxPath ++
      " is not under inbox/ -- wkp promote only moves items out of inbox/".toList)
  else if !mayPromote opts r then
    throw ("principal ".toList ++ opts.principal ++
      " is not role:human and is not in this store's [promote] auto list ".toList ++
      "(.wkp/config.toml) -- promotion requires a human-signed commit".toList)
  else
    let contents ← (r.readToString H.root opts.inboxPath).mapError fun e =>
      "reading ".toList ++ opts.inboxPath ++ ": ".toList ++ e
    let destRelative ← promoteDestination opts r contents
    if r.pathExists H.root destRelative then
      throw (destRelative ++ " already exists -- refusing to overwrite".toList)
    else return (contents, destRelative)

/-- The directories above the destination. -/
def createParent (path : Str) : Effect Git.Repo Str Unit :=
  match Path.parent (Git.componentsUnder H.root path) with
  | some dir => Git.createDirAll H dir
  | none => pure ()

/-- `wkp promote`. -/
def runPromote : Effect Git.Repo Str PromoteSummary := do
  let r ← get
  let (contents, destRelative) ← Effect.ofExcept (planPromote H opts r)
  createParent H destRelative
  Git.atomicWrite H destRelative contents
  Effect.mapError (fun e => "removing ".toList ++ opts.inboxPath ++ ": ".toList ++ e)
    (Git.removeFile H opts.inboxPath)
  Git.removeFromIndex H opts.inboxPath
  let commit ← Git.signedCommit H [destRelative] opts.principal opts.signingKeyFile
  return ⟨opts.inboxPath, destRelative, commit⟩

end Command

theorem fileAt_of_planPromote {H : Git.Host} {opts : PromoteOptions} {r : Git.Repo}
    {contents dest : Str} (h : planPromote H opts r = .ok (contents, dest)) :
    r.fileAt (Git.target H.root opts.inboxPath) = some (.text contents) := by
  unfold planPromote at h
  split_ifs at h
  cases hr : r.readToString H.root opts.inboxPath with
  | error e => rw [hr] at h; cases h
  | ok text =>
    rw [hr] at h
    cases hd : promoteDestination opts r text with
    | error e =>
      change (do let d ← promoteDestination opts r text; _) = _ at h
      rw [hd] at h
      cases h
    | ok d =>
      change (do let d ← promoteDestination opts r text; _) = _ at h
      rw [hd] at h
      change (if r.pathExists H.root d = true then _ else _) = _ at h
      split_ifs at h
      cases h
      exact Git.Repo.fileAt_of_readToString hr

theorem head?_of_planPromote {H : Git.Host} {opts : PromoteOptions} {r : Git.Repo}
    {contents dest : Str} (h : planPromote H opts r = .ok (contents, dest)) :
    opts.inboxPath.head? ≠ some '/' := by
  unfold planPromote at h
  split_ifs at h with hstarts
  rw [Bool.not_eq_true', Bool.not_eq_false] at hstarts
  obtain ⟨rest, hrest⟩ := List.isPrefixOf_iff_prefix.1 hstarts
  rw [← hrest]
  exact fun h => absurd (Option.some.inj h) (by decide)

end Cli

end Wkp
