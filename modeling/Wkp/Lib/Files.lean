import Wkp.Lib.Str
import Mathlib.Data.List.AList

/-!
# Files

* `Rust.Content` : what a file holds, as the code sees it: text, or bytes that are not UTF-8.
* `Rust.Files` : a tree of files by path.
* `Rust.Files.readToString` : `std::fs::read_to_string`, with its errors.
-/

namespace Rust

/-- What a file holds: the characters when its bytes are valid UTF-8, else the bytes. -/
inductive Content
  | text (s : Str)
  | binary (bytes : List UInt8)
  deriving DecidableEq, Repr

namespace Content

/-- `std::str::from_utf8`. -/
def fromUtf8 : Content → Option Str
  | text s => some s
  | binary _ => none

/-- `starts_with`, for a header of ASCII characters. -/
def startsWith (header : Str) : Content → Bool
  | text s => header.isPrefixOf s
  | binary bytes => (header.map fun c => UInt8.ofNat c.toNat).isPrefixOf bytes

theorem fromUtf8_eq_some {c : Content} {s : Str} : c.fromUtf8 = some s ↔ c = text s := by
  cases c <;> simp [fromUtf8]

end Content

/-- Files by path, each path a string from the root. -/
abbrev Files := AList fun _ : Str => Content

/-- Trees are compared by their entries, which computes. -/
instance Files.decidableEq : DecidableEq Files := fun a b =>
  decidable_of_iff (a.entries = b.entries) AList.ext_iff.symm

/-- `std::fs::read_to_string`. -/
def Files.readToString (files : Files) (path : Str) : Except Str Str :=
  match files.lookup path with
  | none => .error "No such file or directory (os error 2)".toList
  | some content => match content.fromUtf8 with
    | none => .error "stream did not contain valid UTF-8".toList
    | some s => .ok s

end Rust
