import Wkp.Lib.Utf8
import Wkp.Crypto.Recipients
import Wkp.Git.Repo

/-!
# Trust files

The files that lines are appended to: the recipients, the allowed signers, and the git files of a
store that `wkp init` completes.  Each is read, edited and written back as a whole.

* `TrustFile` : the bytes of such a file; `FileSystem` : what its calls answer.
* `TrustFile.append`, with `Crypto.append` and `Git.append` : one line more.
* `Cli.ensureLinesPresent` : the lines that are not there yet.
* `Keeps` : nothing of the file is lost, and the new lines are in it.
* `TrustFile.keeps_iff` : when the three functions keep the file.
-/

namespace Wkp

open Rust

/-- The bytes of a file, if there is one. -/
abbrev TrustFile := Option (List UInt8)

/-- What the file system answers while a file is rewritten. -/
structure FileSystem where
  /-- Why the file cannot be read. -/
  readError : Option Str
  /-- `std::fs::create_dir_all` on its directory. -/
  createDirAll : Except Str Unit
  /-- `std::fs::write`.  A write that fails leaves the file as it was, or cut, or partly written. -/
  write : Except (Str × TrustFile) Unit

namespace FileSystem

variable (fs : FileSystem) (file : TrustFile)

/-- `std::fs::read_to_string`. -/
def readToString : Except Str Str :=
  match fs.readError, file with
  | some error, _ => .error error
  | none, none => .error "No such file or directory (os error 2)".toList
  | none, some bytes => match fromUtf8 bytes with
    | none => .error "stream did not contain valid UTF-8".toList
    | some s => .ok s

/-- `read_to_string(..).unwrap_or_default()`. -/
def readOrDefault : Str :=
  match fs.readToString file with
  | .ok s => s
  | .error _ => []

/-- `std::fs::write`, with the file afterwards. -/
def writeFile (contents : Str) : Except Str Unit × TrustFile :=
  match fs.write with
  | .ok _ => (.ok (), some (utf8 contents))
  | .error (error, left) => (.error error, left)

end FileSystem

namespace TrustFile

/-- What `append` writes after a text that it read. -/
def appended (header newLine existing : Str) : Str :=
  let updated := if existing.isEmpty then header else existing
  let updated := if updated.getLast? = some '\n' then updated else updated ++ ['\n']
  updated ++ newLine ++ ['\n']

/-- `append`, as the recipients file and the allowed signers file both have it. -/
def append (header newLine : Str) (fs : FileSystem) (file : TrustFile) :
    Except Str Unit × TrustFile :=
  let existing := fs.readOrDefault file
  if (lines existing).any fun line => trim line = newLine then (.ok (), file)
  else match fs.createDirAll with
    | .error error => (.error error, file)
    | .ok _ => fs.writeFile (appended header newLine existing)

end TrustFile

namespace Crypto

/-- The header of a new recipients file. -/
def recipientsHeader : Str :=
  ("# wkp recipients (design 7.2). One age recipient per line:\n" ++
    "#   <label> <recipient>\n" ++
    "# <label> is `device:<name>` or `recovery:<name>` -- kind is read from\n" ++
    "# that prefix, not a separate column (mirrors allowed_signers' human:/\n" ++
    "# agent: convention). Not itself encrypted: every line here is a public\n" ++
    "# key. Consumed by the encryption filter to decide who private content\n" ++
    "# is encrypted to.\n").toList

variable {R : Type} (display : R → Str)

/-- `recipients::render_line`, with the text form of a recipient. -/
def renderLine (entry : RecipientEntry R) : Str := entry.label ++ ' ' :: display entry.recipient

/-- `recipients::append`. -/
def append (entry : RecipientEntry R) (fs : FileSystem) (file : TrustFile) :
    Except Error Unit × TrustFile :=
  let (result, file) := TrustFile.append recipientsHeader (renderLine display entry) fs file
  (result.mapError .io, file)

end Crypto

namespace Git

/-- An entry of the allowed signers file. -/
structure SignerEntry where
  /-- `human:<id>` or `agent:<harness>[:<model>]`. -/
  principal : Str
  /-- The role that the principal says. -/
  role : SignerRole
  /-- The type of the key. -/
  keyType : Str
  /-- The key. -/
  keyBase64 : Str

/-- The header of a new allowed signers file. -/
def allowedSignersHeader : Str :=
  ("# wkp allowed_signers (design 7.3). One SSH signer per line:\n" ++
    "#   <principal> <key-type> <base64-key>\n" ++
    "# <principal> is `human:<id>` or `agent:<harness>[:<model>]` (design 5.4's\n" ++
    "# provenance.actor convention) -- role (human/agent) is read from that\n" ++
    "# prefix, not a separate column. Consumed directly by git itself via\n" ++
    "# gpg.ssh.allowedSignersFile; see `git help config` for the format.\n").toList

/-- `allowed_signers::render_line`. -/
def renderLine (entry : SignerEntry) : Str :=
  entry.principal ++ ' ' :: entry.keyType ++ ' ' :: entry.keyBase64

/-- `allowed_signers::append`. -/
def append (entry : SignerEntry) : FileSystem → TrustFile → Except Str Unit × TrustFile :=
  TrustFile.append allowedSignersHeader (renderLine entry)

end Git

namespace Cli

/-- The text with the missing lines after it. -/
def withLines (missing : List Str) (existing : Str) : Str :=
  let updated :=
    if existing ≠ [] ∧ existing.getLast? ≠ some '\n' then existing ++ ['\n'] else existing
  updated ++ missing.flatMap (· ++ ['\n'])

/-- The lines that are not in a text. -/
def missingLines (newLines : List Str) (existing : Str) : List Str :=
  newLines.filter fun line => line ∉ lines existing

/-- `ensure_lines_present`. -/
def ensureLinesPresent (newLines : List Str) (fs : FileSystem) (file : TrustFile) :
    Except Str Unit × TrustFile :=
  let existing := fs.readOrDefault file
  let missing := missingLines newLines existing
  if missing.isEmpty then (.ok (), file)
  else fs.writeFile (withLines missing existing)

end Cli

namespace TrustFile

/-- The lines of a file: as bytes, since they need not be text. -/
def rows (file : TrustFile) : List (List UInt8) := (file.getD []).rows lf

/-- The file has the line: as it was written, or as a line of text that only has other whitespace
around it. -/
def HasLine (file : TrustFile) (line : Str) : Prop :=
  (utf8 (line ++ ['\n'])).rows lf <:+: file.rows ∨
    ∃ text, utf8 text ∈ file.rows ∧ trim text = trim line

/-- The claim of the file's writers: after success, every line that was there is there, in order,
and so are the new ones; after an error, the file is as it was. -/
def Keeps {ε : Type} (newLines : List Str) (before : TrustFile) :
    Except ε Unit × TrustFile → Prop
  | (.ok _, after) => before.rows.Sublist after.rows ∧ ∀ line ∈ newLines, after.HasLine line
  | (.error _, after) => after = before

/-- A write that keeps the file, when an unreadable file is replaced by `written`: it succeeds and
the file holds text, which could be read or whose lines are written anyway; or it fails and leaves
the file alone. -/
def SafeWrite (written : Str) (fs : FileSystem) (file : TrustFile) : Prop :=
  (fs.write = .ok () ∧ ∃ s, file.getD [] = utf8 s ∧
    (fs.readError = none ∨ (s.rows '\n').Sublist (written.rows '\n'))) ∨
  ∃ error, fs.write = .error (error, file)

/-- `append` does not come to write, or writes safely. -/
def SafeAppend (header newLine : Str) (fs : FileSystem) (file : TrustFile) : Prop :=
  (∃ line ∈ lines (fs.readOrDefault file), trim line = newLine) ∨
  (∃ error, fs.createDirAll = .error error) ∨
  SafeWrite (appended header newLine []) fs file

/-- `ensure_lines_present` does not come to write, or writes safely. -/
def SafeEnsure (newLines : List Str) (fs : FileSystem) (file : TrustFile) : Prop :=
  (∀ line ∈ newLines, line ∈ lines (fs.readOrDefault file)) ∨
  SafeWrite (Cli.withLines newLines []) fs file

/-! ### What is written -/

theorem rows_some_utf8 (s : Str) : rows (some (utf8 s)) = (s.rows '\n').map utf8 := rows_utf8 s

theorem hasLine_of_isInfix {line s : Str} (h : (line ++ ['\n']).rows '\n' <:+: s.rows '\n') :
    HasLine (some (utf8 s)) line := by
  refine .inl ?_
  rw [rows_some_utf8, rows_utf8]
  exact h.map utf8

theorem hasLine_of_mem_lines {line line' s : Str} (h : line' ∈ lines s)
    (htrim : trim line' = trim line) : HasLine (some (utf8 s)) line := by
  obtain ⟨row, hrow, heq⟩ := exists_row_of_mem_lines h
  refine .inr ⟨row, ?_, heq.trans htrim⟩
  rw [rows_some_utf8]
  exact List.mem_map_of_mem hrow

theorem HasLine.mono {file file' : TrustFile} {line : Str} (h : file.HasLine line)
    (hrows : file.rows <:+: file'.rows) : file'.HasLine line :=
  h.imp (·.trans hrows) fun ⟨text, hmem, htrim⟩ => ⟨text, hrows.subset hmem, htrim⟩

/-- A text is ended with a line feed where it lacks one; its lines stay. -/
theorem ended_of_getLast? {s : Str} (h : s.getLast? = some '\n') : s.Ended '\n' := by
  rcases List.eq_nil_or_concat s with rfl | ⟨t, c, rfl⟩
  · exact .inl rfl
  · rw [List.concat_eq_append, List.getLast?_concat, Option.some_inj] at h
    exact .inr ⟨t, by rw [h, List.concat_eq_append]⟩

theorem ended_of_not {s : Str} (h : ¬ (s ≠ [] ∧ s.getLast? ≠ some '\n')) : s.Ended '\n' := by
  by_cases hnil : s = []
  · exact .inl hnil
  · exact ended_of_getLast? (not_not.1 fun hlast => h ⟨hnil, hlast⟩)

theorem rows_isPrefix_appended (header newLine existing : Str) :
    existing.rows '\n' <+: (appended header newLine existing).rows '\n' := by
  cases existing with
  | nil => exact List.nil_prefix
  | cons c s =>
    rw [appended, List.isEmpty_cons, if_neg Bool.false_ne_true]
    split_ifs with hlast
    · rw [List.append_assoc, (ended_of_getLast? hlast).rows_append]
      exact List.prefix_append _ _
    · rw [List.append_assoc, List.append_assoc]
      exact List.rows_isPrefix_append _ _

theorem hasLine_appended (header newLine existing : Str) :
    HasLine (some (utf8 (appended header newLine existing))) newLine := by
  refine hasLine_of_isInfix ?_
  rw [appended, List.append_assoc]
  have hended : ∀ s : Str, (if s.getLast? = some '\n' then s else s ++ ['\n']).Ended '\n' := by
    intro s
    split_ifs with hlast
    · exact ended_of_getLast? hlast
    · exact .inr ⟨s, rfl⟩
  rw [(hended _).rows_append]
  exact (List.suffix_append _ _).isInfix

theorem rows_isPrefix_withLines (newLines : List Str) (existing : Str) :
    existing.rows '\n' <+: (Cli.withLines newLines existing).rows '\n' := by
  rw [Cli.withLines]
  split_ifs with hlast
  · rw [List.append_assoc]
    exact List.rows_isPrefix_append _ _
  · rw [(ended_of_not hlast).rows_append]
    exact List.prefix_append _ _

theorem hasLine_withLines {newLines : List Str} {line : Str} (h : line ∈ newLines)
    (existing : Str) : HasLine (some (utf8 (Cli.withLines newLines existing))) line := by
  refine hasLine_of_isInfix ?_
  obtain ⟨before, after, rfl⟩ := List.append_of_mem h
  have hended : (if existing ≠ [] ∧ existing.getLast? ≠ some '\n' then existing ++ ['\n']
      else existing).Ended '\n' := by
    split_ifs with hlast
    · exact .inr ⟨existing, rfl⟩
    · exact ended_of_not hlast
  have hlines : ∀ ls : List Str, (ls.flatMap (· ++ ['\n'])).Ended '\n' :=
    List.ended_flatMap fun l => .inr ⟨l, rfl⟩
  rw [Cli.withLines, List.flatMap_append, List.flatMap_cons, hended.rows_append,
    (hlines before).rows_append, List.Ended.rows_append (.inr ⟨line, rfl⟩)]
  exact (List.infix_append' _ _ _).trans (List.suffix_append _ _).isInfix

/-! ### What is kept -/

theorem readOrDefault_cases (fs : FileSystem) (file : TrustFile) :
    (fs.readError = none ∧ file.getD [] = utf8 (fs.readOrDefault file)) ∨
      fs.readOrDefault file = [] ∧ ∀ s, file.getD [] = utf8 s → fs.readError ≠ none := by
  unfold FileSystem.readOrDefault FileSystem.readToString
  cases hread : fs.readError with
  | some error =>
    dsimp only
    exact .inr ⟨rfl, fun s _ => Option.some_ne_none error⟩
  | none =>
    cases file with
    | none => exact .inl ⟨rfl, rfl⟩
    | some bytes =>
      dsimp only [Option.getD_some]
      cases hbytes : fromUtf8 bytes with
      | none =>
        refine .inr ⟨rfl, fun s hs => ?_⟩
        rw [hs, fromUtf8_utf8] at hbytes
        cases hbytes
      | some s =>
        refine .inl ⟨rfl, ?_⟩
        exact fromUtf8_eq_some_iff.1 hbytes

variable {newLines : List Str} {fs : FileSystem} {file : TrustFile}

theorem hasLine_of_mem_read {line line' : Str} (h : line' ∈ lines (fs.readOrDefault file))
    (htrim : trim line' = trim line) : file.HasLine line := by
  rcases readOrDefault_cases fs file with ⟨-, hbytes⟩ | ⟨hempty, -⟩
  · have hline := hasLine_of_mem_lines h htrim
    rwa [HasLine, rows, Option.getD_some, ← hbytes] at hline
  · rw [hempty] at h
    exact absurd h List.not_mem_nil

theorem keeps_writeFile_iff {updated : Str}
    (hnew : ∀ line ∈ newLines, HasLine (some (utf8 updated)) line) :
    Keeps newLines file (fs.writeFile updated) ↔
      (fs.write = .ok () ∧ file.rows.Sublist ((utf8 updated).rows lf)) ∨
      ∃ error, fs.write = .error (error, file) := by
  rw [FileSystem.writeFile]
  cases fs.write with
  | ok u => simpa [Keeps, rows] using fun _ => hnew
  | error failed =>
    refine ⟨fun h => .inr ⟨failed.1, by rw [← h]⟩, ?_⟩
    rintro (⟨h, -⟩ | ⟨error, h⟩)
    · cases h
    · cases h
      rfl

/-- The family's lemma: a text `edit existing` that has the lines of what was read, and the new
lines, is a safe write exactly when `SafeWrite` says so. -/
theorem keeps_edit_iff {edit : Str → Str} (hedit : ∀ s, s.rows '\n' <+: (edit s).rows '\n')
    (hnew : ∀ line ∈ newLines, HasLine (some (utf8 (edit (fs.readOrDefault file)))) line) :
    Keeps newLines file (fs.writeFile (edit (fs.readOrDefault file))) ↔
      SafeWrite (edit []) fs file := by
  rw [keeps_writeFile_iff hnew, SafeWrite, rows, rows_sublist_utf8_iff]
  refine or_congr (and_congr_right fun _ => exists_congr fun s => and_congr_right fun hs => ?_) .rfl
  rcases readOrDefault_cases fs file with ⟨hread, hbytes⟩ | ⟨hempty, hunread⟩
  · obtain rfl := utf8_injective (hs.symm.trans hbytes)
    exact iff_of_true (hedit _).sublist (.inl hread)
  · rw [hempty, or_iff_right (hunread s hs)]

theorem keeps_mapError_iff {ε δ : Type} (f : ε → δ) (result : Except ε Unit) (after : TrustFile) :
    Keeps newLines file (result.mapError f, after) ↔ Keeps newLines file (result, after) := by
  cases result <;> rfl

theorem append_keeps_iff (header newLine : Str) (fs : FileSystem) (file : TrustFile) :
    Keeps [newLine] file (append header newLine fs file) ↔ SafeAppend header newLine fs file := by
  rw [append, SafeAppend]
  split_ifs with hthere
  · simp only [List.any_eq_true, decide_eq_true_eq] at hthere
    refine iff_of_true ?_ (.inl hthere)
    obtain ⟨line, hline, htrim⟩ := hthere
    refine ⟨List.Sublist.refl _, List.forall_mem_singleton.2 (hasLine_of_mem_read hline ?_)⟩
    rw [← htrim, trim_trim]
  · simp only [List.any_eq_true, decide_eq_true_eq] at hthere
    rw [or_iff_right hthere]
    cases fs.createDirAll with
    | error error => exact iff_of_true rfl (.inl ⟨error, rfl⟩)
    | ok u =>
      rw [or_iff_right (by rintro ⟨error, h⟩; cases h)]
      exact keeps_edit_iff (rows_isPrefix_appended header newLine)
        (List.forall_mem_singleton.2 (hasLine_appended header newLine _))

theorem ensureLinesPresent_keeps_iff (newLines : List Str) (fs : FileSystem) (file : TrustFile) :
    Keeps newLines file (Cli.ensureLinesPresent newLines fs file) ↔
      SafeEnsure newLines fs file := by
  rw [Cli.ensureLinesPresent, SafeEnsure]
  have hmem : ∀ line ∈ newLines, line ∉ Cli.missingLines newLines (fs.readOrDefault file) →
      line ∈ lines (fs.readOrDefault file) := by
    intro line hline hnot
    by_contra hmissing
    exact hnot (List.mem_filter.2 ⟨hline, decide_eq_true hmissing⟩)
  split_ifs with hthere
  · rw [List.isEmpty_iff] at hthere
    have hall : ∀ line ∈ newLines, line ∈ lines (fs.readOrDefault file) := fun line hline =>
      hmem line hline (by rw [hthere]; exact List.not_mem_nil)
    exact iff_of_true
      ⟨List.Sublist.refl _, fun line hline => hasLine_of_mem_read (hall line hline) rfl⟩ (.inl hall)
  · have hsome : ¬ ∀ line ∈ newLines, line ∈ lines (fs.readOrDefault file) := fun hall =>
      hthere (List.isEmpty_iff.2 (List.filter_eq_nil_iff.2 fun line hline => by
        simpa using hall line hline))
    rw [or_iff_right hsome]
    have hnil : Cli.missingLines newLines [] = newLines := List.filter_eq_self.2 fun line _ => by
      simp [lines, splitInclusive]
    have hedit := @keeps_edit_iff newLines fs file
      (fun s => Cli.withLines (Cli.missingLines newLines s) s)
      (fun s => rows_isPrefix_withLines _ s) ?_
    · rw [hnil] at hedit
      exact hedit
    · intro line hline
      by_cases hmissing : line ∈ Cli.missingLines newLines (fs.readOrDefault file)
      · exact hasLine_withLines hmissing _
      · refine (hasLine_of_mem_lines (hmem line hline hmissing) rfl).mono ?_
        rw [rows_some_utf8, rows_some_utf8]
        exact ((rows_isPrefix_withLines _ _).map utf8).isInfix

/-- **Appending to trust files.**  The three functions keep what was in the file exactly when they
do not come to write, or the write is safe: an unreadable file, or one that is not UTF-8, is taken
for an empty one and replaced. -/
theorem keeps_iff {R : Type} (display : R → Str) :
    (∀ entry fs file, Keeps [Crypto.renderLine display entry] file
        (Crypto.append display entry fs file) ↔
      SafeAppend Crypto.recipientsHeader (Crypto.renderLine display entry) fs file) ∧
    (∀ entry fs file, Keeps [Git.renderLine entry] file (Git.append entry fs file) ↔
      SafeAppend Git.allowedSignersHeader (Git.renderLine entry) fs file) ∧
    ∀ newLines fs file, Keeps newLines file (Cli.ensureLinesPresent newLines fs file) ↔
      SafeEnsure newLines fs file :=
  ⟨fun _ _ _ => (keeps_mapError_iff _ _ _).trans (append_keeps_iff _ _ _ _),
    fun _ _ _ => append_keeps_iff _ _ _ _, ensureLinesPresent_keeps_iff⟩

/-- A file system on which every call succeeds. -/
def exampleFileSystem : FileSystem := ⟨none, .ok (), .ok ()⟩

/-- A line with a byte of Latin-1, which is not UTF-8. -/
def exampleLatin1 : TrustFile := some [0xE9, 0x0A]

theorem not_keeps :
    ¬ Keeps [".wkp/device-id".toList] exampleLatin1
      (Cli.ensureLinesPresent [".wkp/device-id".toList] exampleFileSystem exampleLatin1) := by
  have hrun : Cli.ensureLinesPresent [".wkp/device-id".toList] exampleFileSystem exampleLatin1 =
      (.ok (), some (utf8 ".wkp/device-id\n".toList)) := by
    decide +kernel
  rw [hrun]
  rintro ⟨hlost, -⟩
  exact absurd hlost (by decide +kernel)

end TrustFile

end Wkp
