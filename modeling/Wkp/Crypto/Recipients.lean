import Wkp.Lib.Files

/-!
# Recipients

The recipients file of a store, and encryption to the recipients in it.

* `Crypto.Age` : what the age crate provides, as a parameter; `Crypto.Age.Ideal` : what is assumed
  of it.
* `Crypto.parseRecipients` : the entries of a recipients file.
* `Crypto.removeRecipient` : the file without the lines about a label.
* `Crypto.encrypt` : encryption to a list of recipients that must not be empty.
-/

namespace Wkp

open Rust

namespace Crypto

/-- The header of every age ciphertext. -/
def ageHeader : Str := "age-encryption.org/v1".toList

theorem not_startsWith_ageHeader {s : Str} (h : s.head? ≠ some 'a') :
    (Content.text s).startsWith ageHeader = false := by
  cases s with
  | nil => rfl
  | cons c s =>
    have hc : c ≠ 'a' := fun hc => h (by rw [hc]; rfl)
    have hheader : ageHeader = 'a' :: ageHeader.tail := rfl
    rw [Content.startsWith, hheader, List.isPrefixOf_cons_cons, beq_eq_false_iff_ne.2 hc.symm,
      Bool.false_and]

/-- What can go wrong, with the message of the age crate. -/
inductive Error
  | noRecipients
  | encrypt (message : Str)
  | decrypt (message : Str)
  | io (message : Str)
  deriving DecidableEq, Repr

/-- The `Display` form. -/
def Error.display : Error → Str
  | noRecipients => "encrypt requires at least one recipient".toList
  | encrypt message => "age encryption failed: ".toList ++ message
  | decrypt message => "age decryption failed: ".toList ++ message
  | io message => "I/O error during age streaming: ".toList ++ message

/-- The age crate: its keys, the text form of a recipient, the encryptor and the decryptor. -/
structure Age where
  /-- A public key. -/
  Recipient : Type
  /-- A private key. -/
  Identity : Type
  /-- `Recipient::from_string`, without the text of its error. -/
  fromString : Str → Option Recipient
  /-- The encryptor, for recipients that are not empty. -/
  wrap : Content → List Recipient → Except Error Content
  /-- The decryptor. -/
  decrypt : Content → Identity → Except Error Content

/-- Every ciphertext starts with the header. -/
def Age.Headed (age : Age) : Prop :=
  ∀ plaintext recipients ciphertext, age.wrap plaintext recipients = .ok ciphertext →
    ciphertext.startsWith ageHeader = true

/-- No ciphertext is text. -/
def Age.Binary (age : Age) : Prop :=
  ∀ plaintext recipients ciphertext, age.wrap plaintext recipients = .ok ciphertext →
    ciphertext.fromUtf8 = none

/-- Ideal encryption: a content can be decrypted by the identities of the keys that it was encrypted
to, and by no others. -/
structure Age.Ideal (age : Age) where
  /-- The public key of an identity. -/
  toPublic : age.Identity → age.Recipient
  /-- The content was encrypted to the key. -/
  EncryptedTo : Content → age.Recipient → Prop
  /-- A ciphertext was encrypted to the given recipients. -/
  encryptedTo_wrap : ∀ plaintext recipients ciphertext,
    age.wrap plaintext recipients = .ok ciphertext →
      ∀ key, EncryptedTo ciphertext key ↔ key ∈ recipients
  /-- The decryptor succeeds for these and fails for the others. -/
  decrypt_iff : ∀ content identity, (∃ plaintext, age.decrypt content identity = .ok plaintext) ↔
    EncryptedTo content (toPublic identity)

/-- `RecipientKind`, read off the label. -/
inductive RecipientKind
  | device | recovery | other
  deriving DecidableEq, Repr

/-- `RecipientKind::from_label`. -/
def RecipientKind.fromLabel (label : Str) : RecipientKind :=
  if "device:".toList.isPrefixOf label then device
  else if "recovery:".toList.isPrefixOf label then recovery
  else other

/-- An entry of the recipients file. -/
structure RecipientEntry (R : Type) where
  /-- `device:<name>` or `recovery:<name>`. -/
  label : Str
  /-- The kind that the label says. -/
  kind : RecipientKind
  /-- The public key. -/
  recipient : R
  deriving DecidableEq

/-- One line of the file: two fields, the second a recipient.  Anything else is skipped. -/
def parseRecipientLine {R : Type} (fromString : Str → Option R) (line : Str) :
    Option (RecipientEntry R) :=
  let line := trim line
  if line = [] ∨ line.head? = some '#' then none
  else match splitWhitespace line with
    | [label, recipient] =>
      (fromString recipient).map fun r => ⟨label, .fromLabel label, r⟩
    | _ => none

/-- The entries of a recipients file. -/
def parseRecipients {R : Type} (fromString : Str → Option R) (contents : Str) :
    List (RecipientEntry R) :=
  (lines contents).filterMap (parseRecipientLine fromString)

/-- The line is about the label. -/
def isAboutLabel (label line : Str) : Bool :=
  let trimmed := trim line
  trimmed ≠ [] && trimmed.head? ≠ some '#' && (splitWhitespace trimmed).head? = some label

/-- `recipients::remove`: the file without the lines about the label, if there is such a line. -/
def removeRecipient (existing label : Str) : Option Str :=
  let keptLines := (lines existing).filter fun line => !isAboutLabel label line
  if !(lines existing).any (isAboutLabel label) then none
  else
    let updated := join ['\n'] keptLines
    some (if updated ≠ [] then updated ++ ['\n'] else updated)

/-- Encrypt to all of the recipients. -/
def encrypt (age : Age) (plaintext : Content) (recipients : List age.Recipient) :
    Except Error Content :=
  if recipients.isEmpty then .error .noRecipients else age.wrap plaintext recipients

theorem isAboutLabel_of_parseRecipientLine {R : Type} {fromString : Str → Option R} {line : Str}
    {entry : RecipientEntry R} (h : parseRecipientLine fromString line = some entry) :
    isAboutLabel entry.label line = true := by
  rw [parseRecipientLine] at h
  split_ifs at h with hline
  rw [not_or] at hline
  split at h
  · rename_i label recipient hfields
    obtain ⟨r, -, rfl⟩ := Option.map_eq_some_iff.1 h
    simp [isAboutLabel, hline.1, hline.2, hfields]
  · cases h

theorem isAboutLabel_unique {label label' line : Str} (h : isAboutLabel label line = true)
    (h' : isAboutLabel label' line = true) : label = label' := by
  simp only [isAboutLabel, Bool.and_eq_true, decide_eq_true_eq] at h h'
  exact Option.some.inj (h.2.symm.trans h'.2)

/-- **Removing a label removes the entries with it, and no others.** -/
theorem parseRecipients_removeRecipient {R : Type} (fromString : Str → Option R)
    {existing label updated : Str} (h : removeRecipient existing label = some updated) :
    parseRecipients fromString updated =
      (parseRecipients fromString existing).filter (·.label ≠ label) := by
  rw [removeRecipient] at h
  split_ifs at h
  obtain rfl := Option.some.inj h
  set kept := (lines existing).filter fun line => !isAboutLabel label line with hkept
  -- a line is read by its trimmed form only, and the lines that are kept are written as they are
  have hparse : ∀ ls : List Str, ls.filterMap (parseRecipientLine fromString) =
      (ls.map trim).filterMap fun t => if t = [] ∨ t.head? = some '#' then none
        else match splitWhitespace t with
          | [label, recipient] => (fromString recipient).map fun r => ⟨label, .fromLabel label, r⟩
          | _ => none := by
    intro ls
    rw [List.filterMap_map]
    rfl
  have hlf : ∀ l ∈ kept, '\n' ∉ l := fun l hl => notMem_of_mem_lines (List.mem_of_mem_filter hl)
  have hwritten : parseRecipients fromString
      (if join ['\n'] kept ≠ [] then join ['\n'] kept ++ ['\n'] else join ['\n'] kept) =
      kept.filterMap (parseRecipientLine fromString) := by
    rw [parseRecipients]
    split_ifs with hjoin
    · have hne : kept ≠ [] := fun hk => hjoin (by rw [hk]; rfl)
      rw [join_append_sep hne, hparse, map_trim_lines_flatMap hlf, ← hparse]
    · rw [ne_eq, not_not] at hjoin
      rw [hjoin]
      match kept, hjoin with
      | [], _ => rfl
      | [l], hl =>
        obtain rfl : l = [] := by simpa [join] using hl
        rfl
      | l :: m :: ls, hl =>
        rw [join_cons _ _ (List.cons_ne_nil _ _)] at hl
        simp at hl
  refine hwritten.trans ?_
  rw [parseRecipients, hkept, List.filter_filterMap, List.filterMap_filter]
  refine List.filterMap_congr fun line _ => ?_
  cases hp : parseRecipientLine fromString line with
  | none => simp
  | some entry =>
    have habout := isAboutLabel_of_parseRecipientLine hp
    by_cases hl : entry.label = label
    · rw [hl] at habout
      simp [habout, hl, Option.filter]
    · have hother : isAboutLabel label line = false := by
        rw [← Bool.not_eq_true]
        exact fun h => hl (isAboutLabel_unique habout h)
      simp [hother, hl, Option.filter]

theorem startsWith_of_encrypt {age : Age} (h : age.Headed) {plaintext ciphertext : Content}
    {recipients : List age.Recipient} (hc : encrypt age plaintext recipients = .ok ciphertext) :
    ciphertext.startsWith ageHeader = true := by
  rw [encrypt] at hc
  split_ifs at hc
  exact h _ _ _ hc

/-- An encryptor for examples, with the header and no more. -/
def exampleAge : Age where
  Recipient := Str
  Identity := Unit
  fromString s := some s
  wrap _ _ := .ok (.text (ageHeader ++ "\n".toList))
  decrypt _ _ := .error (.decrypt "no matching keys".toList)

/-- An encryptor for examples whose ciphertexts are bytes: the header, a byte that no text has, and
the plaintext. -/
def exampleSealed : Age where
  Recipient := Str
  Identity := Unit
  fromString s := some s
  wrap plaintext _ := .ok (.binary ((ageHeader.map fun c => UInt8.ofNat c.toNat) ++ 0xFF ::
    (plaintext.fromUtf8.getD []).map fun c => UInt8.ofNat c.toNat))
  decrypt _ _ := .error (.decrypt "no matching keys".toList)

theorem binary_exampleSealed : exampleSealed.Binary := by
  rintro plaintext recipients ciphertext h
  rw [← Except.ok.inj h]
  rfl

/-- Whether a key is among the recipients, in the header of an example ciphertext. -/
def exampleFlag (recipients : List Bool) (key : Bool) : Char := if key ∈ recipients then '1' else '0'

/-- The text of an example ciphertext after its header. -/
def exampleBody (content : Content) : Option Str :=
  content.fromUtf8.bind fun s => stripPrefix s (ageHeader ++ ['\n'])

theorem exampleBody_text (body : Str) :
    exampleBody (.text (ageHeader ++ ['\n'] ++ body)) = some body :=
  stripPrefix_eq_some_iff.2 rfl

/-- Decryption of an example ciphertext. -/
def exampleDecrypt (content : Content) (identity : Bool) : Except Error Content :=
  match exampleBody content with
  | some (first :: second :: plaintext) =>
    if (if identity then second else first) = '1' then .ok (.text plaintext)
    else .error (.decrypt "no matching keys".toList)
  | _ => .error (.decrypt "invalid header".toList)

/-- An encryptor for examples with two keys, `k1` and `k2`: the header says for which of them the
plaintext after it is. -/
def exampleKeys : Age where
  Recipient := Bool
  Identity := Bool
  fromString s := if s = "k1".toList then some false else if s = "k2".toList then some true else none
  wrap plaintext recipients := .ok (.text (ageHeader ++ ['\n'] ++ exampleFlag recipients false ::
    exampleFlag recipients true :: (plaintext.fromUtf8).getD []))
  decrypt := exampleDecrypt

instance : DecidableEq exampleKeys.Recipient := inferInstanceAs (DecidableEq Bool)

theorem exampleDecrypt_wrap {plaintext ciphertext : Content} {recipients : List Bool}
    (h : exampleKeys.wrap plaintext recipients = .ok ciphertext) (key : Bool) :
    (∃ p, exampleDecrypt ciphertext key = .ok p) ↔ key ∈ recipients := by
  obtain rfl := Except.ok.inj h
  have hflag : exampleFlag recipients key = '1' ↔ key ∈ recipients := by
    by_cases hk : key ∈ recipients <;> simp [exampleFlag, hk]
  rw [← hflag]
  simp only [exampleDecrypt, exampleBody_text]
  cases key with
  | false =>
    rw [if_neg Bool.false_ne_true]
    by_cases h1 : exampleFlag recipients false = '1' <;> simp only [h1, if_true, if_false] <;> simp
  | true =>
    rw [if_pos rfl]
    by_cases h1 : exampleFlag recipients true = '1' <;> simp only [h1, if_true, if_false] <;> simp

/-- The example is ideal. -/
def exampleIdeal : exampleKeys.Ideal where
  toPublic identity := identity
  EncryptedTo content key := ∃ plaintext, exampleDecrypt content key = .ok plaintext
  encryptedTo_wrap _ _ _ h key := exampleDecrypt_wrap h key
  decrypt_iff _ _ := Iff.rfl

end Crypto

end Wkp
