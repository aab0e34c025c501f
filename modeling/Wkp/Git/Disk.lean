import Wkp.Git.Repo
import Wkp.Lib.Path

/-!
# The disk around a repository

Files by the paths that the commands are given: these can hold `..`, be absolute, or lead out of
the repository.

* `Git.Repo.resolve` : the place that a path leads to; every directory on the way has to be there.
* `Git.Host` : what the commands need besides the repository, the faults of the disk included.
* `Git.createDirAll`, `Git.atomicWrite`, `Git.writeFile`, `Git.removeFile` : what they do to the disk.
-/

namespace Wkp

open Rust

namespace Git

/-! ### Places -/

/-- A place on the disk. -/
inductive Location
  /-- In the repository, by the path from its root. -/
  | inside (path : Str)
  /-- Elsewhere, by the names from the root of the disk. -/
  | outside (names : List Str)
  deriving DecidableEq

/-- The components of `root.join(raw)`. -/
def componentsUnder (root : List Str) (raw : Str) : List Component :=
  Path.join (.rootDir :: root.map .normal) raw

/-- The place that components lead to. -/
def locate (root : List Str) (cs : List Component) : Location :=
  let names := Path.normalize cs
  if root.isPrefixOf names then .inside (join ['/'] (names.drop root.length)) else .outside names

/-- The place that a path of the repository leads to. -/
def target (root : List Str) (raw : Str) : Location := locate root (componentsUnder root raw)

/-- The path leads further down from the directory. -/
def isUnder (dir path : Str) : Bool := (dir ++ ['/']).isPrefixOf path

/-- The directory of a path of the repository. -/
def dirPath (path : Str) : Str := join ['/'] (split '/' path).dropLast

/-- The directory of a place. -/
def dirOf : Location → Location
  | .inside path => .inside (dirPath path)
  | .outside names => .outside names.dropLast

namespace Repo

variable (r : Repo) (root : List Str)

/-- The file at a place. -/
def fileAt : Location → Option Content
  | .inside path => r.worktree.lookup path
  | .outside names => r.outside.lookup names

/-- There is a directory at a place: it holds something, or it is known. -/
def isDir : Location → Bool
  | .inside path => path = [] || r.worktree.keys.any (isUnder path) ||
      r.dirs.any fun dir => dir = path || isUnder path dir
  | .outside names => names.isPrefixOf root || r.outside.keys.any (fun file =>
      names.isPrefixOf file.dropLast) || r.outsideDirs.any names.isPrefixOf

/-- The repository with a file at a place, or with none. -/
def setFile : Location → Option Content → Repo
  | .inside path, content => { r with worktree := setAt r.worktree path content }
  | .outside names, some content => { r with outside := r.outside.insert names content }
  | .outside names, none => { r with outside := r.outside.erase names }

/-- The repository with more directories. -/
def addDirs (places : List Location) : Repo :=
  { r with
    dirs := r.dirs ++ places.filterMap fun
      | .inside path => some path
      | .outside _ => none
    outsideDirs := r.outsideDirs ++ places.filterMap fun
      | .inside _ => none
      | .outside names => some names }

/-- The place that components lead to, when everything on the way is a directory. -/
def walk (cs : List Component) : Option Location :=
  if cs.inits.dropLast.all fun dir => r.isDir root (locate root dir) then some (locate root cs) else none

/-- The path ends like that of a directory. -/
def endsAsDir (raw : Str) : Bool :=
  (split '/' raw).getLast? = some [] || (split '/' raw).getLast? = some ['.']

/-- The place of the file that a path names. -/
def resolve (raw : Str) : Option Location :=
  if endsAsDir raw then none else r.walk root (componentsUnder root raw)

/-- `std::fs::read_to_string`. -/
def readToString (raw : Str) : Except Str Str :=
  match r.resolve root raw with
  | none => .error "No such file or directory (os error 2)".toList
  | some place => match r.fileAt place with
    | some content => match content.fromUtf8 with
      | none => .error "stream did not contain valid UTF-8".toList
      | some s => .ok s
    | none => .error (if r.isDir root place then "Is a directory (os error 21)".toList
        else "No such file or directory (os error 2)".toList)

/-- `Path::exists`. -/
def pathExists (raw : Str) : Bool :=
  match r.walk root (componentsUnder root raw) with
  | none => false
  | some place => r.isDir root place || (!endsAsDir raw && (r.fileAt place).isSome)

variable {r root}

theorem eq_target_of_resolve {raw : Str} {place : Location} (h : r.resolve root raw = some place) :
    place = target root raw := by
  rw [resolve] at h
  split_ifs at h
  rw [walk] at h
  split_ifs at h
  exact (Option.some.inj h).symm

theorem fileAt_of_readToString {raw s : Str} (h : r.readToString root raw = .ok s) :
    r.fileAt (target root raw) = some (.text s) := by
  rw [readToString] at h
  cases hr : r.resolve root raw with
  | none => rw [hr] at h; cases h
  | some place =>
    obtain rfl := eq_target_of_resolve hr
    rw [hr] at h
    dsimp only at h
    cases hf : r.fileAt (target root raw) with
    | none => rw [hf] at h; cases h
    | some content =>
      rw [hf] at h
      dsimp only at h
      cases hs : content.fromUtf8 with
      | none => rw [hs] at h; cases h
      | some t =>
        rw [hs] at h
        obtain rfl := Except.ok.inj h
        exact congrArg some (Content.fromUtf8_eq_some.1 hs)

/-! ### What a new file leaves as it was -/

@[simp] theorem index_setFile (place : Location) (content : Option Content) :
    (r.setFile place content).index = r.index := by
  cases place <;> cases content <;> rfl

@[simp] theorem head_setFile (place : Location) (content : Option Content) :
    (r.setFile place content).head = r.head := by
  cases place <;> cases content <;> rfl

@[simp] theorem index_addDirs (places : List Location) : (r.addDirs places).index = r.index := rfl

@[simp] theorem head_addDirs (places : List Location) : (r.addDirs places).head = r.head := rfl

@[simp] theorem worktree_addDirs (places : List Location) :
    (r.addDirs places).worktree = r.worktree := rfl

@[simp] theorem fileAt_addDirs (places : List Location) (place : Location) :
    (r.addDirs places).fileAt place = r.fileAt place := by
  cases place <;> rfl

theorem fileAt_setFile (place place' : Location) (content : Option Content) :
    (r.setFile place content).fileAt place' =
      if place' = place then content else r.fileAt place' := by
  rcases place with path | names
  · rcases place' with path' | names'
    · simp only [Location.inside.injEq]
      exact lookup_setAt r.worktree path path' content
    · rfl
  · rcases place' with path' | names'
    · cases content <;> rfl
    · simp only [Location.outside.injEq]
      by_cases h : names' = names
      · subst h
        rw [if_pos rfl]
        cases content with
        | none => exact AList.lookup_erase names' r.outside
        | some c => exact AList.lookup_insert r.outside
      · rw [if_neg h]
        cases content with
        | none => exact AList.lookup_erase_ne h
        | some c => exact AList.lookup_insert_ne h

end Repo

/-! ### What the commands do to it -/

/-- The steps of a command that can fail for reasons outside of it, by the paths they are about. -/
inductive Step
  | createDirAll | writeTemp | rename | writeRecipients | lsFiles | writeTree | formatMessage
  | updateRef | symbolicRef | branch
  | checkout (branch : Option Str)
  | removeFile (path : Str)
  | writeFile (path : Str)
  | updateIndex (path : Str)
  | hashObject (path : Str)
  deriving DecidableEq, Repr

/-- What a command needs besides the repository. -/
structure Host where
  /-- Where the repository is: the names from the root of the disk. -/
  root : List Str
  /-- The filters that git runs. -/
  filters : Filters
  /-- The signature that a principal makes with a key, as `git log` prints it. -/
  sign : Str → Str → Except Str Signature
  /-- What makes a step fail, if anything does. -/
  faults : Step → Option Str
  /-- What a write that fails leaves of a file: what it held, nothing, or a part of the new text. -/
  leaves : Step → Option Content → Option Content := fun _ content => content
  /-- The number of the process and the time, in the names of temporary files. -/
  stamp : Str

variable (H : Host)

/-- `std::fs::create_dir_all`. -/
def createDirAll (cs : List Component) : Effect Repo Str Unit := do
  Effect.attempt (H.faults .createDirAll)
  let r ← get
  match cs.inits.find? fun dir => (r.fileAt (locate H.root dir)).isSome with
  | some dir => throw (if dir = cs then "File exists (os error 17)".toList
      else "Not a directory (os error 20)".toList)
  | none => set (r.addDirs (cs.inits.map (locate H.root)))

/-- The temporary file next to a path: `.<name>.tmp-<pid>-<nanos>`. -/
def tempComponents (raw : Str) : List Component :=
  let cs := componentsUnder H.root raw
  match cs.getLast? with
  | some (.normal name) => cs.dropLast ++ [.normal ('.' :: (name ++ ".tmp-".toList ++ H.stamp))]
  | _ => cs ++ [.normal (".materialized.md.tmp-".toList ++ H.stamp)]

/-- The repository after a write to the place has failed. -/
def Repo.left (r : Repo) (step : Step) (place : Location) : Repo :=
  r.setFile place (H.leaves step (r.fileAt place))

/-- A write that may fail when the file is open. -/
def attemptWrite (step : Step) (place : Location) : Effect Repo Str Unit :=
  match H.faults step with
  | none => pure ()
  | some e => do
    modify fun r => r.left H step place
    throw e

/-- Write a file through a temporary one.  When it cannot be renamed, the temporary one stays. -/
def atomicWrite (raw contents : Str) : Effect Repo Str Unit := do
  let r ← get
  match r.walk H.root (tempComponents H raw) with
  | none => throw "No such file or directory (os error 2)".toList
  | some temp =>
    if r.isDir H.root temp then throw "Is a directory (os error 21)".toList
    else
      -- a temporary file that was not written is removed; what is left is there if that fails too
      attemptWrite H .writeTemp temp
      set (r.setFile temp (some (.text contents)))
      Effect.attempt (H.faults .rename)
      match r.resolve H.root raw with
      | none => throw "Not a directory (os error 20)".toList
      | some place =>
        if r.isDir H.root place then throw "Is a directory (os error 21)".toList
        else set ((r.setFile temp none).setFile place (some (.text contents)))

/-- `std::fs::write`. -/
def writeFile (raw contents : Str) : Effect Repo Str Unit := do
  let r ← get
  match r.resolve H.root raw with
  | none => throw "No such file or directory (os error 2)".toList
  | some place =>
    if r.isDir H.root place then throw "Is a directory (os error 21)".toList
    else
      attemptWrite H (.writeFile raw) place
      set (r.setFile place (some (.text contents)))

/-- `std::fs::remove_file`.  The directory of the file stays. -/
def removeFile (raw : Str) : Effect Repo Str Unit := do
  Effect.attempt (H.faults (.removeFile raw))
  let r ← get
  match r.resolve H.root raw with
  | none => throw "No such file or directory (os error 2)".toList
  | some place => match r.fileAt place with
    | none => throw "No such file or directory (os error 2)".toList
    | some _ =>
      set ((r.setFile place none).addDirs [dirOf place])

/-- The temporary file of a path cannot be written. -/
def WriteFails (raw : Str) (r : Repo) : Prop :=
  (H.faults .writeTemp).isSome ∨
    ∀ temp, r.walk H.root (tempComponents H raw) = some temp → r.isDir H.root temp = true

/-- A file cannot be renamed to the path. -/
def RenameFails (raw : Str) (r : Repo) : Prop :=
  (H.faults .rename).isSome ∨
    ∀ place, r.resolve H.root raw = some place → r.isDir H.root place = true

/-- The file at the path cannot be removed. -/
def RemoveFails (raw : Str) (r : Repo) : Prop :=
  (H.faults (.removeFile raw)).isSome ∨ (r.resolve H.root raw).bind r.fileAt = none

/-! ### What they leave as it was -/

variable {H} {r r' : Repo}

theorem exec_attemptWrite (step : Step) (place : Location) (r : Repo) :
    Effect.exec (attemptWrite H step place) r = match H.faults step with
      | none => (.ok (), r)
      | some e => (.error e, r.left H step place) := by
  unfold attemptWrite
  cases H.faults step <;> rfl

/-- What follows a write that may fail succeeds when the write does not fail. -/
theorem exec_attemptWrite_bind_eq_ok {α : Type} {step : Step} {place : Location}
    {k : Unit → Effect Repo Str α} {a : α} :
    Effect.exec (attemptWrite H step place >>= k) r = (.ok a, r') ↔
      H.faults step = none ∧ Effect.exec (k ()) r = (.ok a, r') := by
  rw [Effect.exec_bind, exec_attemptWrite]
  cases H.faults step with
  | none => simp
  | some e => simp

theorem exec_attemptWrite_bind_eq_error {α : Type} {step : Step} {place : Location}
    {k : Unit → Effect Repo Str α} {e : Str} :
    Effect.exec (attemptWrite H step place >>= k) r = (.error e, r') ↔
      (H.faults step = some e ∧ r' = r.left H step place) ∨
        (H.faults step = none ∧ Effect.exec (k ()) r = (.error e, r')) := by
  rw [Effect.exec_bind, exec_attemptWrite]
  cases H.faults step with
  | none => simp
  | some e' => simp [eq_comm]

theorem exec_createDirAll_eq_ok {cs : List Component} {u : Unit}
    (h : Effect.exec (createDirAll H cs) r = (.ok u, r')) : ∃ places, r' = r.addDirs places := by
  rw [createDirAll, Effect.exec_attempt_bind_eq_ok, Effect.exec_get_bind] at h
  replace h := h.2
  cases hf : cs.inits.find? fun dir => (r.fileAt (locate H.root dir)).isSome with
  | some dir => rw [hf] at h; cases h
  | none =>
    rw [hf] at h
    cases h
    exact ⟨_, rfl⟩

/-- A file that was written is there, and the temporary one is not, unless it is the same. -/
theorem exec_atomicWrite_eq_ok {raw contents : Str} {u : Unit}
    (h : Effect.exec (atomicWrite H raw contents) r = (.ok u, r')) :
    ∃ temp, r.walk H.root (tempComponents H raw) = some temp ∧
      r' = (r.setFile temp none).setFile (target H.root raw) (some (.text contents)) ∧
      ¬ WriteFails H raw r ∧ ¬ RenameFails H raw r := by
  rw [atomicWrite, Effect.exec_get_bind] at h
  cases hw : r.walk H.root (tempComponents H raw) with
  | none => rw [hw] at h; cases h
  | some temp =>
    rw [hw] at h
    dsimp only at h
    split_ifs at h with hdir
    · cases h
    rw [exec_attemptWrite_bind_eq_ok, Effect.exec_bind_eq_ok] at h
    obtain ⟨hwrite, _, r₁, -, h⟩ := h
    rw [Effect.exec_attempt_bind_eq_ok] at h
    obtain ⟨hrename, h⟩ := h
    cases hp : r.resolve H.root raw with
    | none => rw [hp] at h; cases h
    | some place =>
      obtain rfl := Repo.eq_target_of_resolve hp
      rw [hp] at h
      dsimp only at h
      split_ifs at h with hplace
      · cases h
      · cases h
        refine ⟨temp, rfl, rfl, ?_, ?_⟩
        · rintro (hf | hf)
          · rw [hwrite] at hf; cases hf
          · exact hdir (hf temp hw)
        · rintro (hf | hf)
          · rw [hrename] at hf; cases hf
          · exact hplace (hf _ hp)

theorem exec_removeFile_eq_ok {raw : Str} {u : Unit}
    (h : Effect.exec (removeFile H raw) r = (.ok u, r')) :
    ¬ RemoveFails H raw r ∧ (r.fileAt (target H.root raw)).isSome ∧
      ∃ places, r' = (r.setFile (target H.root raw) none).addDirs places := by
  rw [removeFile, Effect.exec_attempt_bind_eq_ok, Effect.exec_get_bind] at h
  obtain ⟨hfault, h⟩ := h
  cases hp : r.resolve H.root raw with
  | none => rw [hp] at h; cases h
  | some place =>
    obtain rfl := Repo.eq_target_of_resolve hp
    rw [hp] at h
    dsimp only at h
    cases hf : r.fileAt (target H.root raw) with
    | none => rw [hf] at h; cases h
    | some content =>
      rw [hf] at h
      cases h
      refine ⟨?_, rfl, _, rfl⟩
      rintro (hr | hr)
      · rw [hfault] at hr; cases hr
      · rw [hp, Option.bind_some, hf] at hr; cases hr

/-! ### What they leave when they fail -/

theorem exec_createDirAll_eq_error {cs : List Component} {e : Str}
    (h : Effect.exec (createDirAll H cs) r = (.error e, r')) : r' = r := by
  rw [createDirAll, Effect.exec_attempt_bind_eq_error, Effect.exec_get_bind] at h
  rcases h with ⟨-, rfl⟩ | ⟨-, h⟩
  · rfl
  · cases hf : cs.inits.find? fun dir => (r.fileAt (locate H.root dir)).isSome with
    | some dir =>
      rw [hf] at h
      cases h
      rfl
    | none => rw [hf] at h; cases h

/-- A write that failed left nothing, what a failed write leaves, or the temporary file. -/
theorem exec_atomicWrite_eq_error {raw contents e : Str}
    (h : Effect.exec (atomicWrite H raw contents) r = (.error e, r')) :
    (WriteFails H raw r ∧
      ((r' = r ∧ ∀ temp, r.walk H.root (tempComponents H raw) = some temp →
          r.isDir H.root temp = true) ∨
        ∃ temp, r.walk H.root (tempComponents H raw) = some temp ∧ r.isDir H.root temp = false ∧
          r' = r.left H .writeTemp temp)) ∨
      ∃ temp, r.walk H.root (tempComponents H raw) = some temp ∧
        r' = r.setFile temp (some (.text contents)) ∧ ¬ WriteFails H raw r ∧
        RenameFails H raw r := by
  rw [atomicWrite, Effect.exec_get_bind] at h
  -- the path of the temporary file may lead nowhere, or to a directory
  cases hw : r.walk H.root (tempComponents H raw) with
  | none =>
    rw [hw] at h
    cases h
    have hnone : ∀ temp, (none : Option Location) = some temp → r.isDir H.root temp = true := nofun
    exact .inl ⟨.inr (hw ▸ hnone), .inl ⟨rfl, hnone⟩⟩
  | some temp =>
    rw [hw] at h
    dsimp only at h
    split_ifs at h with hdir
    · cases h
      have hall : ∀ temp', some temp = some temp' → r.isDir H.root temp' = true := by
        rintro _ ⟨⟩
        exact hdir
      exact .inl ⟨.inr (hw ▸ hall), .inl ⟨rfl, hall⟩⟩
    · rw [exec_attemptWrite_bind_eq_error] at h
      rcases h with ⟨hfault, rfl⟩ | ⟨hfault, h⟩
      · refine .inl ⟨.inl (by rw [hfault]; rfl), .inr ⟨temp, rfl, ?_, rfl⟩⟩
        exact Bool.eq_false_iff.2 hdir
      -- from here on the temporary file is there, and it is the renaming that fails
      have hwrites : ¬ WriteFails H raw r := by
        rintro (hf | hf)
        · rw [hfault] at hf; cases hf
        · exact hdir (hf temp hw)
      rw [Effect.exec_bind_eq_error] at h
      rcases h with h | ⟨_, r₁, hset, h⟩
      · cases h
      · cases hset
        rw [Effect.exec_attempt_bind_eq_error] at h
        rcases h with ⟨hrename, rfl⟩ | ⟨-, h⟩
        · exact .inr ⟨temp, rfl, rfl, hwrites, .inl (by rw [hrename]; rfl)⟩
        · cases hp : r.resolve H.root raw with
          | none =>
            rw [hp] at h
            cases h
            exact .inr ⟨temp, rfl, rfl, hwrites, .inr fun place ht => by rw [hp] at ht; cases ht⟩
          | some place =>
            rw [hp] at h
            dsimp only at h
            split_ifs at h with hplace
            · cases h
              exact .inr ⟨temp, rfl, rfl, hwrites, .inr fun place' ht => by
                rw [hp] at ht; cases ht; exact hplace⟩
            · cases h

theorem exec_removeFile_eq_error {raw e : Str}
    (h : Effect.exec (removeFile H raw) r = (.error e, r')) : r' = r ∧ RemoveFails H raw r := by
  rw [removeFile, Effect.exec_attempt_bind_eq_error, Effect.exec_get_bind] at h
  rcases h with ⟨hfault, rfl⟩ | ⟨-, h⟩
  · exact ⟨rfl, .inl (by rw [hfault]; rfl)⟩
  · cases hp : r.resolve H.root raw with
    | none =>
      rw [hp] at h
      cases h
      exact ⟨rfl, .inr (by rw [hp]; rfl)⟩
    | some place =>
      rw [hp] at h
      dsimp only at h
      cases hf : r.fileAt place with
      | none =>
        rw [hf] at h
        cases h
        exact ⟨rfl, .inr (by rw [hp]; exact hf)⟩
      | some content => rw [hf] at h; cases h

end Git

end Wkp
