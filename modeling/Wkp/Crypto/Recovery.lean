import Wkp.Cli.TrustFiles
import Wkp.Lib.Words
import Mathlib.Data.Bool.AllAny

/-!
# Recovery keys

A recovery key is registered under a label that its user chooses, in a file whose lines are two
words.

* `Crypto.generateRecoveryKey`, `Crypto.remove` : the file gets an entry, and loses those of a label.
* `Crypto.parseRecipients_appended` : the entries of a file that a line was appended to.
* `Crypto.registers_iff` : **the key is registered exactly when no whitespace is in its label.**
-/

namespace Wkp

open Rust

namespace Crypto

section Commands

variable {R I : Type} (display : R → Str) (toRecipient : I → R)

/-- The label of a recovery key. -/
def recoveryLabel (label : Str) : Str := "recovery:".toList ++ label

/-- The entry of a recovery key. -/
def recoveryEntry (identity : I) (label : Str) : RecipientEntry R :=
  ⟨recoveryLabel label, .recovery, toRecipient identity⟩

/-- `generate_recovery_key`, with the identity that `Identity::generate` makes. -/
def generateRecoveryKey (identity : I) (label : Str) (fs : FileSystem) (file : TrustFile) :
    Except Error I × TrustFile :=
  let (result, file) := append display (recoveryEntry toRecipient identity label) fs file
  (result.map fun _ => identity, file)

/-- `recipients::remove`. -/
def remove (label : Str) (fs : FileSystem) (file : TrustFile) : Except Error Bool × TrustFile :=
  match fs.readToString file with
  | .error _ => (.ok false, file)
  | .ok existing =>
    match removeRecipient existing label with
    | none => (.ok false, file)
    | some updated =>
      let (result, file) := fs.writeFile updated
      ((result.mapError .io).map fun _ => true, file)

end Commands

/-- What is assumed of the text form of a recipient: it is one word, and can be read back. -/
structure TextForm {R : Type} (fromString : Str → Option R) (display : R → Str) : Prop where
  /-- It can be read back. -/
  fromString_display : ∀ r, fromString (display r) = some r
  /-- It is not empty. -/
  display_ne_nil : ∀ r, display r ≠ []
  /-- No whitespace is in it. -/
  display_word : ∀ r, ∀ c ∈ display r, isWhitespace c = false

section Entries

variable {R : Type} (fromString : Str → Option R)

/-! ### The entries of a file -/

theorem trim_stripLineEnding (l : Str) : trim (stripLineEnding l) = trim l := by
  rw [stripLineEnding]
  cases hlf : stripSuffix l ['\n'] with
  | none => rfl
  | some k =>
    rw [stripSuffix_eq_some_iff.1 hlf, trim_concat (by decide)]
    dsimp only
    cases hcr : stripSuffix k ['\r'] with
    | none => rfl
    | some m => rw [stripSuffix_eq_some_iff.1 hcr, trim_concat (by decide), Option.getD_some]

theorem parseRecipientLine_congr {l l' : Str} (h : trim l = trim l') :
    parseRecipientLine fromString l = parseRecipientLine fromString l' := by
  rw [parseRecipientLine, parseRecipientLine, h]

theorem parseRecipients_eq (contents : Str) : parseRecipients fromString contents =
    (splitInclusive contents).filterMap (parseRecipientLine fromString) := by
  rw [parseRecipients, lines, List.filterMap_map]
  exact List.filterMap_congr fun l _ => parseRecipientLine_congr _ (trim_stripLineEnding l)

theorem parseRecipients_lf (s : Str) :
    parseRecipients fromString (s ++ ['\n']) = parseRecipients fromString s := by
  rw [parseRecipients_eq, parseRecipients_eq]
  rcases splitInclusive_lf s with heq | ⟨ls, l, hs, heq⟩
  · rw [heq, List.filterMap_append]
    exact List.append_nil _
  · rw [heq, hs, List.filterMap_append, List.filterMap_append, List.filterMap_cons,
      List.filterMap_cons, parseRecipientLine_congr _ (trim_concat (by decide))]

theorem parseRecipients_append_lf (a b : Str) : parseRecipients fromString (a ++ '\n' :: b) =
    parseRecipients fromString a ++ parseRecipients fromString b := by
  rw [← parseRecipients_lf fromString a, parseRecipients, lines_append_lf, List.filterMap_append]
  rfl

/-- A comment, with its line feed. -/
def isComment (line : Str) : Bool :=
  line.head? == some '#' && line.getLast? == some '\n' && !line.dropLast.contains '\n'

theorem parseRecipients_comment {line : Str} (h : isComment line = true) (s : Str) :
    parseRecipients fromString (line ++ s) = parseRecipients fromString s := by
  rw [isComment, Bool.and_eq_true, Bool.and_eq_true, beq_iff_eq, beq_iff_eq] at h
  obtain ⟨⟨hhead, hlast⟩, hlf⟩ := h
  obtain ⟨l, rfl⟩ := List.getLast?_eq_some_iff.1 hlast
  rw [List.dropLast_concat] at hlf
  cases l with
  | nil => exact absurd hhead (by decide)
  | cons c l =>
    obtain rfl : c = '#' := Option.some.inj hhead
    have hnotMem : '\n' ∉ '#' :: l := by simpa using hlf
    rw [List.append_assoc, List.singleton_append, parseRecipients_append_lf, parseRecipients_eq,
      splitInclusive_of_notMem hnotMem (List.cons_ne_nil _ _), List.filterMap_cons]
    have hcomment : (trim ('#' :: l)).head? = some '#' := by
      have hstart : isWhitespace '#' = false := by decide
      obtain ⟨r, hr⟩ := exists_rdropWhile_cons hstart l
      rw [trim, trimStart, List.dropWhile_cons_of_neg (Bool.eq_false_iff.1 hstart), trimEnd, hr]
      rfl
    rw [parseRecipientLine, if_pos (.inr hcomment)]
    rfl

theorem parseRecipients_recipientsHeader : parseRecipients fromString recipientsHeader = [] := by
  have hcomment : ∀ line s, isComment line = true → parseRecipients fromString s = [] →
      parseRecipients fromString (line ++ s) = [] := fun line s hline hs =>
    (parseRecipients_comment fromString hline s).trans hs
  have hlast : ∀ line, isComment line = true → parseRecipients fromString line = [] := by
    intro line hline
    have hnil := hcomment line [] hline rfl
    rwa [List.append_nil] at hnil
  unfold recipientsHeader
  simp only [String.toList_append, List.append_assoc]
  iterate 6
    refine hcomment _ _ (by decide +kernel) ?_
  exact hlast _ (by decide +kernel)

/-- The entries of a file that a line was appended to, behind a header without entries. -/
theorem parseRecipients_appended_of_header {header : Str}
    (h : parseRecipients fromString header = []) (line existing : Str) :
    parseRecipients fromString (TrustFile.appended header line existing) =
      parseRecipients fromString existing ++ parseRecipients fromString line := by
  have hended : ∀ s : Str, parseRecipients fromString
      ((if s.getLast? = some '\n' then s else s ++ ['\n']) ++ line ++ ['\n']) =
      parseRecipients fromString s ++ parseRecipients fromString line := by
    intro s
    rw [parseRecipients_lf]
    split_ifs with hlast
    · obtain ⟨t, rfl⟩ := List.getLast?_eq_some_iff.1 hlast
      rw [List.append_assoc, List.singleton_append, parseRecipients_append_lf, parseRecipients_lf]
    · rw [List.append_assoc, List.singleton_append, parseRecipients_append_lf]
  cases existing with
  | nil =>
    refine (hended header).trans ?_
    rw [h]
    rfl
  | cons c s => exact hended _

theorem parseRecipients_appended (line existing : Str) :
    parseRecipients fromString (TrustFile.appended recipientsHeader line existing) =
      parseRecipients fromString existing ++ parseRecipients fromString line :=
  parseRecipients_appended_of_header fromString (parseRecipients_recipientsHeader fromString) line
    existing

theorem word_of_mem_parseRecipients {contents : Str} {entry : RecipientEntry R}
    (h : entry ∈ parseRecipients fromString contents) :
    ∀ c ∈ entry.label, isWhitespace c = false := by
  obtain ⟨line, -, hline⟩ := List.mem_filterMap.1 h
  rw [parseRecipientLine] at hline
  split_ifs at hline
  split at hline
  · rename_i label recipient hfields
    obtain ⟨r, -, rfl⟩ := Option.map_eq_some_iff.1 hline
    exact (of_mem_splitWhitespace (s := trim line) (by rw [hfields]; exact List.mem_cons_self)).2
  · cases hline

theorem isSome_removeRecipient {contents : Str} {entry : RecipientEntry R}
    (h : entry ∈ parseRecipients fromString contents) :
    ∃ updated, removeRecipient contents entry.label = some updated := by
  obtain ⟨line, hmem, hline⟩ := List.mem_filterMap.1 h
  have hany : (lines contents).any (isAboutLabel entry.label) = true :=
    List.any_eq_true.2 ⟨line, hmem, isAboutLabel_of_parseRecipientLine hline⟩
  rw [removeRecipient, hany]
  exact ⟨_, rfl⟩

end Entries

/-! ### Registration -/

section Registration

variable {R I : Type} (fromString : Str → Option R) (display : R → Str) (toRecipient : I → R)

/-- The entries of the file are those of a text and that of the recovery key; and removing the label
of the key leaves the entries with another label. -/
def Registers (identity : I) (label : Str) (fs : FileSystem) (text : Str) (file : TrustFile) : Prop :=
  ∃ text', file = some (utf8 text') ∧
    parseRecipients fromString text' =
      parseRecipients fromString text ++ [recoveryEntry toRecipient identity label] ∧
    ∃ text'', remove (recoveryLabel label) fs file = (.ok true, some (utf8 text'')) ∧
      parseRecipients fromString text'' =
        (parseRecipients fromString text').filter (·.label ≠ recoveryLabel label)

variable {fromString display toRecipient}

theorem readToString_utf8 {fs : FileSystem} (hread : fs.readError = none) (text : Str) :
    fs.readToString (some (utf8 text)) = .ok text := by
  unfold FileSystem.readToString
  rw [hread]
  dsimp only
  rw [fromUtf8_utf8]

theorem readOrDefault_eq {fs : FileSystem} {file : TrustFile} {text : Str}
    (hread : fs.readError = none) (htext : file.getD [] = utf8 text) :
    fs.readOrDefault file = text := by
  rcases TrustFile.readOrDefault_cases fs file with ⟨-, hbytes⟩ | ⟨-, hunread⟩
  · exact utf8_injective (hbytes.symm.trans htext)
  · exact absurd hread (hunread text htext)

theorem remove_of_removeRecipient {fs : FileSystem} {text label updated : Str}
    (hread : fs.readError = none) (hwrite : fs.write = .ok ())
    (h : removeRecipient text label = some updated) :
    remove label fs (some (utf8 text)) = (.ok true, some (utf8 updated)) := by
  unfold remove
  rw [readToString_utf8 hread]
  dsimp only
  rw [h]
  dsimp only
  rw [FileSystem.writeFile, hwrite]
  rfl

theorem parseRecipientLine_words {w d : Str} (hw : w ≠ []) (hw' : ∀ c ∈ w, isWhitespace c = false)
    (hcomment : w.head? ≠ some '#') (hd : d ≠ []) (hd' : ∀ c ∈ d, isWhitespace c = false) :
    parseRecipientLine fromString (w ++ ' ' :: d) =
      (fromString d).map fun r => ⟨w, .fromLabel w, r⟩ := by
  have hhead : (w ++ ' ' :: d).head? = w.head? := by
    rw [List.head?_append_of_ne_nil _ hw]
  have hlast : (w ++ ' ' :: d).getLast? = d.getLast? := by
    rw [← List.singleton_append, ← List.append_assoc, List.getLast?_append_of_ne_nil _ hd]
  have htrim : Trimmed (w ++ ' ' :: d) := by
    refine ⟨fun c hc => ?_, fun c hc => ?_⟩
    · rw [hhead] at hc
      exact hw' c (List.mem_of_mem_head? hc)
    · rw [hlast] at hc
      exact hd' c (List.mem_of_getLast? hc)
  have hfields : splitWhitespace (w ++ ' ' :: d) = [w, d] := by
    rw [splitWhitespace_word_cons hw hw' (by decide), splitWhitespace_word hd hd']
  have hentry : ¬ (w ++ ' ' :: d = [] ∨ (w ++ ' ' :: d).head? = some '#') := by
    rw [hhead, not_or]
    exact ⟨by simp, hcomment⟩
  rw [parseRecipientLine, trim_eq_self htrim, if_neg hentry, hfields]

theorem recoveryLabel_cons (label : Str) :
    recoveryLabel label = 'r' :: ("ecovery:".toList ++ label) := rfl

/-- The label of a recovery key is a word when what its user chose has no whitespace. -/
theorem recoveryLabel_word {label : Str} (hlabel : ∀ c ∈ label, isWhitespace c = false) :
    ∀ c ∈ recoveryLabel label, isWhitespace c = false := by
  have hkind : ("recovery:".toList.all fun c => !isWhitespace c) = true := by decide
  intro c hc
  rcases List.mem_append.1 hc with hc | hc
  · exact (Bool.not_eq_true' _).mp (List.all_eq_true.1 hkind c hc)
  · exact hlabel c hc

theorem fromLabel_recoveryLabel (label : Str) :
    RecipientKind.fromLabel (recoveryLabel label) = .recovery := by
  have hdevice : "device:".toList.isPrefixOf (recoveryLabel label) = false := rfl
  have hrecovery : "recovery:".toList.isPrefixOf (recoveryLabel label) = true :=
    List.isPrefixOf_iff_prefix.2 (List.prefix_append _ _)
  rw [RecipientKind.fromLabel, if_neg (Bool.eq_false_iff.1 hdevice), if_pos hrecovery]

/-- The line of a label without whitespace is read as its entry. -/
theorem parseRecipientLine_renderLine (h : TextForm fromString display) (identity : I) {label : Str}
    (hlabel : ∀ c ∈ label, isWhitespace c = false) : parseRecipientLine fromString
      (renderLine display (recoveryEntry toRecipient identity label)) =
        some (recoveryEntry toRecipient identity label) := by
  have hhead : (recoveryLabel label).head? ≠ some '#' := by
    rw [recoveryLabel_cons, List.head?_cons]
    decide
  have hne : recoveryLabel label ≠ [] := by
    rw [recoveryLabel_cons]
    exact List.cons_ne_nil _ _
  rw [renderLine, recoveryEntry, parseRecipientLine_words hne (recoveryLabel_word hlabel) hhead
    (h.display_ne_nil _) (h.display_word _), h.fromString_display, Option.map_some,
    fromLabel_recoveryLabel]

theorem parseRecipients_renderLine (h : TextForm fromString display) (identity : I) {label : Str}
    (hlabel : ∀ c ∈ label, isWhitespace c = false) :
    parseRecipients fromString (renderLine display (recoveryEntry toRecipient identity label)) =
      [recoveryEntry toRecipient identity label] := by
  have hlf : '\n' ∉ renderLine display (recoveryEntry toRecipient identity label) := by
    rw [renderLine, recoveryEntry, List.mem_append, List.mem_cons]
    rintro (hmem | hmem | hmem)
    · exact absurd (recoveryLabel_word hlabel _ hmem) (by decide)
    · exact absurd hmem (by decide)
    · exact absurd (h.display_word _ _ hmem) (by decide)
  have hne : renderLine display (recoveryEntry toRecipient identity label) ≠ [] := by
    simp [renderLine]
  rw [parseRecipients_eq, splitInclusive_of_notMem hlf hne, List.filterMap_cons,
    parseRecipientLine_renderLine h identity hlabel]
  rfl

/-- What `generate_recovery_key` writes, when the line is not there yet. -/
theorem write_of_generateRecoveryKey {fs : FileSystem} {file file' : TrustFile}
    {identity generated : I} {label : Str}
    (hnew : ¬ ((lines (fs.readOrDefault file)).any fun line => trim line =
      renderLine display (recoveryEntry toRecipient identity label)) = true)
    (hok : generateRecoveryKey display toRecipient identity label fs file =
      (.ok generated, file')) :
    fs.write = .ok () ∧ file' = some (utf8 (TrustFile.appended recipientsHeader
      (renderLine display (recoveryEntry toRecipient identity label)) (fs.readOrDefault file))) := by
  rw [generateRecoveryKey, append, TrustFile.append, if_neg hnew] at hok
  cases hdir : fs.createDirAll with
  | error error =>
    rw [hdir] at hok
    cases hok
  | ok u =>
    rw [hdir, FileSystem.writeFile] at hok
    cases hwrite : fs.write with
    | error failed =>
      rw [hwrite] at hok
      cases hok
    | ok u =>
      rw [hwrite] at hok
      exact ⟨rfl, (Prod.mk.inj hok).2.symm⟩

/-- **When a recovery key is registered.**  A fresh key that was generated without an error is in the
file under its label exactly when no whitespace is in the label. -/
theorem registers_iff (h : TextForm fromString display) {fs : FileSystem} {file file' : TrustFile}
    {text : Str} (hread : fs.readError = none) (htext : file.getD [] = utf8 text)
    {identity generated : I} (hfresh : ∀ entry ∈ parseRecipients fromString text,
      entry.recipient ≠ toRecipient identity) (label : Str)
    (hok : generateRecoveryKey display toRecipient identity label fs file =
      (.ok generated, file')) :
    Registers fromString toRecipient identity label fs text file' ↔
      ∀ c ∈ label, isWhitespace c = false := by
  constructor
  · rintro ⟨text', -, hentries, -⟩ c hc
    have hmem : recoveryEntry toRecipient identity label ∈ parseRecipients fromString text' := by
      rw [hentries]
      exact List.mem_append_right _ (List.mem_singleton_self _)
    exact word_of_mem_parseRecipients _ hmem c (List.mem_append_right _ hc)
  · intro hlabel
    have hline : parseRecipientLine fromString
        (renderLine display (recoveryEntry toRecipient identity label)) = _ :=
      parseRecipientLine_renderLine h identity hlabel
    have hexisting := readOrDefault_eq hread htext
    -- a line that is there already would be an entry with the fresh key
    have hnew : ¬ ((lines (fs.readOrDefault file)).any fun line => trim line =
        renderLine display (recoveryEntry toRecipient identity label)) = true := by
      rw [hexisting]
      intro hany
      obtain ⟨line, hmem, htrim⟩ := List.any_eq_true.1 hany
      rw [decide_eq_true_iff] at htrim
      refine hfresh (recoveryEntry toRecipient identity label) ?_ rfl
      refine List.mem_filterMap.2 ⟨line, hmem, ?_⟩
      rw [← hline]
      exact parseRecipientLine_congr _ (by rw [← htrim, trim_trim])
    obtain ⟨hwrite, rfl⟩ := write_of_generateRecoveryKey hnew hok
    rw [hexisting]
    have happended := parseRecipients_appended fromString
      (renderLine display (recoveryEntry toRecipient identity label)) text
    rw [parseRecipients_renderLine h identity hlabel] at happended
    have hmem : recoveryEntry toRecipient identity label ∈ parseRecipients fromString
        (TrustFile.appended recipientsHeader
          (renderLine display (recoveryEntry toRecipient identity label)) text) := by
      rw [happended]
      exact List.mem_append_right _ (List.mem_singleton_self _)
    obtain ⟨updated, hupdated⟩ := isSome_removeRecipient fromString hmem
    exact ⟨_, rfl, happended, updated, remove_of_removeRecipient hread hwrite hupdated,
      parseRecipients_removeRecipient fromString hupdated⟩

end Registration

/-- The text form of the two example keys. -/
def exampleDisplay : Bool → Str
  | false => "k1".toList
  | true => "k2".toList

theorem textForm_exampleDisplay : TextForm exampleKeys.fromString exampleDisplay where
  fromString_display r := by cases r <;> decide
  display_ne_nil r := by cases r <;> decide
  display_word r := by cases r <;> exact List.all_iff_forall_prop.1 (by decide)

/-- One key in the file, and a recovery key for it. -/
theorem registers_iff_example : ∃ file', generateRecoveryKey exampleDisplay id true "safe".toList
      TrustFile.exampleFileSystem (some (utf8 "device:desk k1".toList)) = (.ok true, file') ∧
    Registers exampleKeys.fromString id true "safe".toList TrustFile.exampleFileSystem
      "device:desk k1".toList file' := by
  have hfresh : ∀ entry ∈ parseRecipients exampleKeys.fromString "device:desk k1".toList,
      entry.recipient ≠ true := by
    have hentries : parseRecipients exampleKeys.fromString "device:desk k1".toList =
        [⟨"device:desk".toList, .device, false⟩] := by
      decide +kernel
    rw [hentries]
    exact List.forall_mem_singleton.2 Bool.false_ne_true
  have hok : generateRecoveryKey exampleDisplay id true "safe".toList TrustFile.exampleFileSystem
      (some (utf8 "device:desk k1".toList)) = (.ok true, some (utf8 _)) := rfl
  exact ⟨_, hok, (registers_iff textForm_exampleDisplay rfl rfl hfresh "safe".toList hok).2
    (List.all_iff_forall_prop.1 (by decide))⟩

/-- A label with a blank in it makes a line of three words, which is skipped. -/
theorem recovery_key_lost : ¬ ∀ (label text : Str) (file' : TrustFile),
    generateRecoveryKey exampleDisplay id true label TrustFile.exampleFileSystem
      (some (utf8 text)) = (.ok true, file') →
    Registers exampleKeys.fromString id true label TrustFile.exampleFileSystem text file' := by
  intro h
  obtain ⟨text', hfile, hentries, -⟩ := h "my laptop".toList ['#'] _ rfl
  obtain rfl := utf8_injective (Option.some.inj hfile)
  exact absurd hentries (by decide +kernel)

end Crypto

end Wkp
