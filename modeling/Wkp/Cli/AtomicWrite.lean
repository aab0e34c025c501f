import Wkp.Cli.Notes
import Wkp.Lib.Folder
import Wkp.Lib.Protocol
import Wkp.Lib.Utf8

/-!
# Files that are written through temporary ones

A file that people or harnesses read is written beside its place and then renamed.  Any number of
processes do this at once, others read the files, and any of them may stop between two calls.

* `Cli.atomicWrite`, `Cli.fsReadToString` : the programs.
* `Cli.tempPath_stamp`, `Cli.tempPath_ne_of_md` : whose temporary file it is.
* `Cli.ends_atomicWrite` : **a write that runs alone is one step.**
-/

namespace Wkp

open Rust Frontmatter

namespace Cli

/-! ### The programs -/

/-- A path: the names from the root. -/
abbrev FilePath := List Str

/-- The temporary file next to a path: `.<name>.tmp-<pid>-<nanos>`. -/
def tempPath (dest : FilePath) (pid nanos : ℕ) : FilePath :=
  dest.dropLast ++ ['.' :: (dest.getLast?.getD "materialized.md".toList ++ ".tmp-".toList ++
    decimal pid ++ '-' :: decimal nanos)]

/-- A write: what `atomic_write` is called with, the number of the process and the time. -/
structure FileWrite where
  /-- Where the file goes. -/
  dest : FilePath
  /-- What it will hold. -/
  content : Str
  /-- `std::process::id()`. -/
  pid : ℕ
  /-- `SystemTime::now()`. -/
  nanos : ℕ
  deriving DecidableEq

namespace FileWrite

/-- The temporary file. -/
def temp (w : FileWrite) : FilePath := tempPath w.dest w.pid w.nanos

/-- What is written, as bytes. -/
def bytes (w : FileWrite) : List UInt8 := utf8 w.content

end FileWrite

/-- The reply to a call. -/
abbrev FileReply := @Folder.Call.Reply FilePath UInt8 Str

/-- A program that works on files. -/
abbrev FileWork (α : Type) := Folder.Work FilePath UInt8 Str α

/-- `atomic_write`.  When the file cannot be renamed, the temporary one stays. -/
def atomicWrite (w : FileWrite) : FileWork Unit := ExceptT.mk do
  match ← (Folder.writeFile w.temp w.bytes).run with
  | .ok () => Folder.request (.rename w.temp w.dest)
  | .error e => do
    let _ ← Folder.request (.remove w.temp)
    pure (.error e)

/-- What `std::fs::read_to_string` makes of bytes. -/
def textOf (bytes : List UInt8) : Except Str Str :=
  match fromUtf8 bytes with
  | none => .error "stream did not contain valid UTF-8".toList
  | some text => .ok text

/-- `std::fs::read_to_string`, for a number of reads, unless that is too few. -/
def fsReadToString (path : FilePath) (reads : ℕ) : FileWork (Option Str) := do
  match ← Folder.readFile path reads with
  | none => return none
  | some bytes => ExceptT.mk (.pure ((textOf bytes).map some))

/-- What a process does. -/
inductive FileJob
  | write (w : FileWrite)
  | read (path : FilePath) (reads : ℕ)
  deriving DecidableEq

namespace FileJob

/-- Which file the process is after. -/
def target : FileJob → FilePath
  | write w => w.dest
  | read path _ => path

/-- The program of the process. -/
def program : FileJob → Program FileReply (Except Str (Option Str))
  | write w => (do atomicWrite w; return none : FileWork (Option Str)).run
  | read path reads => (fsReadToString path reads).run

end FileJob

/-! ### Temporary files -/

/-- The name of a temporary file tells who wrote it, and when. -/
theorem tempPath_stamp {dest dest' : FilePath} {pid pid' nanos nanos' : ℕ}
    (h : tempPath dest pid nanos = tempPath dest' pid' nanos') : pid = pid' ∧ nanos = nanos' := by
  have hlast := congrArg List.getLast? h
  rw [tempPath, tempPath, List.getLast?_concat, List.getLast?_concat, Option.some.injEq,
    List.cons.injEq] at hlast
  -- the time and the number are behind the last two dashes
  have hrev := congrArg List.reverse hlast.2
  simp only [List.reverse_append, List.reverse_cons, List.append_assoc, List.cons_append,
    List.nil_append] at hrev
  obtain ⟨hnanos, hrev⟩ := append_cons_inj (mt List.mem_reverse.1 (dash_notMem_decimal nanos))
    (mt List.mem_reverse.1 (dash_notMem_decimal nanos')) hrev
  have hdash : ∀ s : Str, ".tmp-".toList.reverse ++ s = '-' :: (".tmp".toList.reverse ++ s) :=
    fun _ => rfl
  rw [hdash, hdash] at hrev
  have hpid := (append_cons_inj (mt List.mem_reverse.1 (dash_notMem_decimal pid))
    (mt List.mem_reverse.1 (dash_notMem_decimal pid')) hrev).1
  exact ⟨decimal_injective (List.reverse_injective hpid),
    decimal_injective (List.reverse_injective hnanos)⟩

theorem tempPath_ne_of_md {path : FilePath} {name : Str} (hname : path.getLast? = some name)
    (hmd : ".md".toList <:+ name) (dest : FilePath) (pid nanos : ℕ) :
    path ≠ tempPath dest pid nanos := by
  rintro rfl
  rw [tempPath, List.getLast?_concat, Option.some.injEq] at hname
  obtain ⟨stem, hstem⟩ := hmd
  have hlast := congrArg List.getLast? (hname.trans hstem.symm)
  have hd : (stem ++ ".md".toList).getLast? = some 'd' := by simp
  obtain ⟨c, hc⟩ : ∃ c, (decimal nanos).getLast? = some c := by
    refine ⟨_, List.getLast?_eq_some_getLast ?_⟩
    simp [decimal]
  rw [hd, ← List.cons_append, List.getLast?_append_cons, List.getLast?_cons, hc] at hlast
  have hdigit := isDigit_of_mem_decimal (List.mem_of_getLast? hc)
  obtain rfl : c = 'd' := by simpa using hlast
  exact absurd hdigit (by decide)

/-! ### A write alone -/

/-- **A write that runs alone is one step**, as `Git.atomicWrite` has it: the file holds the text and the
temporary one is gone.  When it fails, everything but the temporary file is as it was. -/
theorem ends_atomicWrite {w : FileWrite} (hplain : w.temp ≠ w.dest) {d d' : Folder FilePath UInt8}
    {r : Except Str Unit} (h : Program.Ends Folder.Exec (atomicWrite w).run d r d') :
    (r = .ok () ∧ d'.contents =
        Function.update (Function.update d.contents w.temp none) w.dest (some w.bytes)) ∨
      ∃ e, r = .error e ∧ ∀ path, path ≠ w.temp → d'.contents path = d.contents path := by
  obtain ⟨r₁, d₁, hfile, h⟩ := Program.ends_bind.1 h
  obtain ⟨hframe, hcontents⟩ := Folder.ends_writeFile hfile
  have hsame : ∀ path, path ≠ w.temp → d₁.contents path = d.contents path :=
    fun path hpath => hframe.contents_eq (mt List.mem_singleton.1 hpath) hpath
  cases r₁ with
  | ok =>
    cases Program.ends_perform.1 h with
    | renamed =>
      refine .inl ⟨rfl, ?_⟩
      have hmoved := Folder.frame_rename d₁ hplain
      funext path
      by_cases hdest : path = w.dest
      · rw [hdest, Function.update_self, Folder.contents_rename_self, hcontents rfl]
      rw [Function.update_of_ne hdest]
      by_cases htemp : path = w.temp
      · rw [htemp, Function.update_self, Folder.contents, Folder.entries_rename_left d₁ hplain,
          Option.map_none]
      · rw [Function.update_of_ne htemp, hmoved.contents_eq (by simp [htemp, hdest]) htemp,
          hsame path htemp]
    | notRenamed _ _ e => exact .inr ⟨e, rfl, hsame⟩
  | error e =>
    obtain ⟨r₂, d₂, hremove, h⟩ := Program.ends_call.1 h
    obtain ⟨rfl, rfl⟩ := Program.ends_pure.1 h
    refine .inr ⟨e, rfl, fun path hpath => ?_⟩
    cases hremove with
    | removed =>
      have hgone := Folder.frame_remove d₁ w.temp
      rw [hgone.contents_eq (mt List.mem_singleton.1 hpath) hpath, hsame path hpath]
    | notRemoved => exact hsame path hpath

end Cli

end Wkp
