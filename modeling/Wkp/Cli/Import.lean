import Wkp.Lib.Effect
import Wkp.Lib.Files
import Wkp.Lib.Utf8

/-!
# Importing the memory of a harness

`wkp import`, which `wkp init` runs too: the instruction files at the root of the store, and the
memory files of every project under a Claude home.

* `Cli.parseClaudeMemoryFile` : a memory file of Claude Code.
* `Cli.Source` : a file to be imported, with the place and the contents it is imported to.
* `Cli.writeImportIfAbsent` : a destination that exists is left alone.
* `Cli.runImport` : the whole import.
-/

namespace Wkp

open Rust

namespace Cli

/-! ### A memory file -/

/-- What a memory file of Claude Code says. -/
structure ClaudeMemoryItem where
  /-- The title. -/
  title : Str
  /-- The type, in the words of the store. -/
  itemType : Str
  /-- The scope, in the words of the store. -/
  scope : Option Str
  /-- When it was modified. -/
  updated : Option Str
  /-- The text. -/
  body : Str

/-- What has been read of the frontmatter of a memory file. -/
structure MemoryFields where
  /-- `name:`. -/
  name : Option Str := none
  /-- `description:`. -/
  description : Option Str := none
  /-- `type:` under `metadata:`. -/
  metaType : Option Str := none
  /-- `modified:` under `metadata:`. -/
  modified : Option Str := none
  /-- The line is under `metadata:`. -/
  inMetadata : Bool := false

/-- A scalar without its double quotes. -/
def unquoteYamlScalar (s : Str) : Str :=
  let s := trim s
  if 2 ≤ byteLength s ∧ s.head? = some '"' ∧ s.getLast? = some '"' then s.tail.dropLast else s

/-- One line of the frontmatter.  An unindented line, an empty one too, ends `metadata:`. -/
def MemoryFields.readLine (fields : MemoryFields) (rawLine : Str) : MemoryFields :=
  let trimmed := trimStart rawLine
  let indent := byteLength rawLine - byteLength trimmed
  if indent = 0 then
    let fields := { fields with inMetadata := "metadata:".toList.isPrefixOf trimmed }
    match stripPrefix trimmed "name:".toList, stripPrefix trimmed "description:".toList with
    | some v, _ => { fields with name := some (unquoteYamlScalar (trim v)) }
    | none, some v => { fields with description := some (unquoteYamlScalar (trim v)) }
    | none, none => fields
  else if fields.inMetadata then
    let trimmed := trim trimmed
    match stripPrefix trimmed "type:".toList, stripPrefix trimmed "modified:".toList with
    | some v, _ => { fields with metaType := some (unquoteYamlScalar (trim v)) }
    | none, some v => { fields with modified := some (unquoteYamlScalar (trim v)) }
    | none, none => fields
  else fields

/-- The type and the scope for a type of Claude Code. -/
def mapClaudeMemoryType (t : Option Str) : Str × Option Str :=
  if t = some "project".toList then ("project-state".toList, some "project".toList)
  else if t = some "feedback".toList then ("feedback".toList, some "project".toList)
  else if t = some "reference".toList then ("reference".toList, some "project".toList)
  else if t = some "user".toList then ("knowledge".toList, some "user".toList)
  else ("knowledge".toList, none)

/-- A file without frontmatter. -/
def plainMemory (contents : Str) : ClaudeMemoryItem where
  title := "Imported memory".toList
  itemType := "knowledge".toList
  scope := none
  updated := none
  body := trim contents

/-- `parse_claude_memory_file`. -/
def parseClaudeMemoryFile (contents : Str) : ClaudeMemoryItem :=
  match stripPrefix contents "---\n".toList with
  | none => plainMemory contents
  | some afterOpen => match find "\n---".toList afterOpen with
    | none => plainMemory contents
    | some (block, rest) =>
      let body := rest.dropWhile (· = '\n')
      let fields := (lines block).foldl MemoryFields.readLine {}
      { title := (fields.description.or fields.name).getD "Imported memory".toList
        itemType := (mapClaudeMemoryType fields.metaType).1
        scope := (mapClaudeMemoryType fields.metaType).2
        updated := fields.modified
        body := trim body }

/-! ### What is imported -/

/-- The lines of the frontmatter of an imported item. -/
def okfFrontmatterLines (T : CharTables) (title itemType : Str) (scope updated : Option Str) :
    List Str :=
  ["title: ".toList ++ debug T title, "type: ".toList ++ itemType] ++
    (scope.map ("scope: ".toList ++ ·)).toList ++
    ["provenance:".toList, "  source: import".toList, "confidence: proposed".toList] ++
    (updated.map fun updated => "updated: ".toList ++ debug T updated).toList

/-- `okf_frontmatter_block`. -/
def okfFrontmatterBlock (T : CharTables) (title itemType : Str) (scope updated : Option Str) :
    Str :=
  "---\n".toList ++ (okfFrontmatterLines T title itemType scope updated).flatMap (· ++ ['\n']) ++
    "---\n".toList

/-- A file to import, as it is written. -/
structure Source where
  /-- The stem of the name that it is imported under. -/
  slug : Str
  /-- The title. -/
  title : Str
  /-- The type. -/
  itemType : Str
  /-- The scope. -/
  scope : Option Str
  /-- When it was modified. -/
  updated : Option Str
  /-- Its parsed body. -/
  body : Str

/-- Where it is imported to. -/
def Source.dest (source : Source) : Str :=
  "inbox/import/".toList ++ source.slug ++ ".md".toList

/-- What is written there. -/
def Source.rendered (T : CharTables) (source : Source) : Str :=
  okfFrontmatterBlock T source.title source.itemType source.scope source.updated ++
    "\n".toList ++ trim source.body ++ "\n".toList

/-- An instruction file at the root of the store. -/
def instructionSource (filename slug contents : Str) : Source :=
  ⟨slug, filename, "instruction".toList, none, none, trim contents⟩

/-- The file name before and after its last dot, unless it starts with that dot. -/
def rsplitFileAtDot (name : List UInt8) : List UInt8 × Option (List UInt8) :=
  let dot := UInt8.ofNat '.'.toNat
  if name = [dot, dot] then (name, none)
  else match name.reverse.dropWhile (· ≠ dot) with
    | [] => (name, none)
    | _ :: before =>
      if before = [] then (name, none)
      else (before.reverse, some (name.reverse.takeWhile (· ≠ dot)).reverse)

/-- An entry of a memory directory: its name, and what reading it gives. -/
structure MemoryFile where
  /-- The name. -/
  name : List UInt8
  /-- `std::fs::read_to_string`: it fails for a directory, or where the file is not UTF-8. -/
  contents : Except Str Str

/-- The name ends in `.md`. -/
def MemoryFile.isMarkdown (file : MemoryFile) : Bool :=
  decide ((rsplitFileAtDot file.name).2 = some (utf8 "md".toList))

/-- A memory file with the given contents. -/
def MemoryFile.source (file : MemoryFile) (contents : Str) : Source :=
  let claudeMem := parseClaudeMemoryFile contents
  let stem := toStringLossy (rsplitFileAtDot file.name).1
  ⟨"claude-memory-".toList ++ stem, claudeMem.title, claudeMem.itemType, claudeMem.scope,
    claudeMem.updated, claudeMem.body⟩

/-- A directory, which may fail to be listed, as may each of its entries. -/
abbrev Directory (α : Type) := Except Str (List (Except Str α))

/-- A project: its `memory`, if that is a directory. -/
structure Project where
  /-- The memory directory. -/
  memory : Option (Directory MemoryFile)

/-- A Claude home: its `projects`, if that is a directory. -/
structure ClaudeHome where
  /-- The directory of projects. -/
  projects : Option (Directory Project)

/-! ### The import -/

/-- The store and the counters while an import runs. -/
structure Import where
  /-- How many files were imported. -/
  imported : ℕ
  /-- How many were there already. -/
  skipped : ℕ
  /-- The store. -/
  store : Files

/-- What an import answers. -/
structure ImportSummary where
  /-- How many files were imported. -/
  imported : ℕ
  /-- How many were there already. -/
  skipped : ℕ
  deriving DecidableEq, Repr

open Effect

/-- `write_import_if_absent`; `faults` says where making the directory or the file fails. -/
def writeImportIfAbsent (faults : Str → Option Str) (destRel contents : Str) :
    Effect Files Str Bool := do
  let store ← get
  if (store.lookup destRel).isSome then return false
  else
    attempt (faults destRel)
    modify (·.insert destRel (.text contents))
    return true

variable (T : CharTables) (faults : Str → Option Str)

/-- Import one file, and count it. -/
def importSource (source : Source) : Effect Import Str Unit := do
  let written ← focus Import.store (fun s store => { s with store })
    (writeImportIfAbsent faults source.dest (source.rendered T))
  modify fun s =>
    if written then { s with imported := s.imported + 1 } else { s with skipped := s.skipped + 1 }

/-- The instruction files, with what they are imported under. -/
def instructionFiles : List (Str × Str) :=
  [("CLAUDE.md".toList, "claude-md".toList), ("AGENTS.md".toList, "agents-md".toList)]

/-- Import an instruction file, if there is one. -/
def importInstructionFile (file : Str × Str) : Effect Import Str Unit := do
  let s ← get
  if (s.store.lookup file.1).isSome then
    let contents ← Effect.ofExcept (s.store.readToString file.1)
    importSource T faults (instructionSource file.1 file.2 contents)

/-- Import an entry of a memory directory, if its name ends in `.md`. -/
def importMemoryFile (file : MemoryFile) : Effect Import Str Unit := do
  if file.isMarkdown then
    let contents ← Effect.ofExcept file.contents
    importSource T faults (file.source contents)

/-- Go through a directory, if it is one. -/
def forEntries {α : Type} (directory : Option (Directory α)) (body : α → Effect Import Str Unit) :
    Effect Import Str Unit :=
  match directory with
  | none => pure ()
  | some directory => do
    let entries ← Effect.ofExcept directory
    entries.forM fun entry => do
      let entry ← Effect.ofExcept entry
      body entry

/-- Import the memory of every project. -/
def importClaudeHome (claudeHome : Option ClaudeHome) : Effect Import Str Unit :=
  match claudeHome with
  | none => pure ()
  | some home => forEntries home.projects fun project =>
      forEntries project.memory (importMemoryFile T faults)

/-- The loops of `run_import`. -/
def importAll (claudeHome : Option ClaudeHome) : Effect Import Str Unit := do
  instructionFiles.forM (importInstructionFile T faults)
  importClaudeHome T faults claudeHome

/-- `run_import`: the summary, and the store afterwards. -/
def runImport (claudeHome : Option ClaudeHome) (store : Files) : Except Str ImportSummary × Files :=
  let (result, s) := exec (importAll T faults claudeHome) ⟨0, 0, store⟩
  (result.map fun _ => ⟨s.imported, s.skipped⟩, s.store)

end Cli

end Wkp
