import Wkp.Lib.Path

/-!
# References between items

* `Graph.extractWikilinkNames` : the names mentioned in a body as `[[name]]`.
* `Graph.normalizeRef` : a `refs` entry to a path relative to the store root.
-/

namespace Wkp

open Rust

namespace Graph

/-- The loop of `extractWikilinkNames`; `fuel` bounds the length of the rest. -/
def extractWikilinkNamesLoop : ℕ → Str → List Str
  | 0, _ => []
  | fuel + 1, rest =>
    match find "[[".toList rest with
    | none => []
    | some (_, after) => match find "]]".toList after with
      | none => []
      | some (inner, rest) =>
        let name := trim (inner.takeWhile fun c => c ≠ '|' ∧ c ≠ '#')
        (if name = [] then [] else [name]) ++ extractWikilinkNamesLoop fuel rest

/-- The names of the `[[name]]`, `[[name|alias]]` and `[[name#section]]` mentions, in order. -/
def extractWikilinkNames (body : Str) : List Str :=
  extractWikilinkNamesLoop (body.length + 1) body

/-- Collapse `.` and `..` without touching the file system. -/
def normalizePath (path : List Component) : List Component :=
  path.foldl (fun out c =>
    match c with
    | .parentDir =>
      let (out', popped) := Path.pop out
      if popped then out' else Path.push out .parentDir
    | .curDir => out
    | other => Path.push out other) []

/-- A reference relative to the directory of its source, as a path from the store root; none when
it would leave the store. -/
def normalizeRef (sourcePath rawRef : Str) : Option Str :=
  let sourceDir := (Path.parent (Path.components sourcePath)).getD []
  let normalized := normalizePath (Path.join sourceDir rawRef)
  let text := (Path.display normalized).map fun c => if c = '\\' then '/' else c
  if text = "..".toList ∨ (stripPrefix text "../".toList).isSome then none else some text

end Graph

end Wkp
