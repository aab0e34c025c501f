import Wkp.Cli.Filter

/-!
# The filters undo each other

* `Crypto.Age.Correct` : encryption that a recipient can undo.
* `Cli.Decryptable` : a ciphertext that an identity can decrypt.
* `Cli.Inverse`, `Cli.filters_inverse` : **what the clean filter stores is checked out as it was.**
-/

namespace Wkp

open Rust

namespace Crypto

/-- Correct encryption: to some recipients it succeeds, and each of them reads what was written. -/
structure Age.Correct (age : Age) where
  /-- The public key of an identity. -/
  toPublic : age.Identity → age.Recipient
  /-- Encryption to some recipients succeeds. -/
  encrypts : ∀ plaintext recipients, recipients ≠ [] →
    ∃ ciphertext, age.wrap plaintext recipients = .ok ciphertext
  /-- Each of them can decrypt the result. -/
  decrypts : ∀ plaintext recipients ciphertext identity,
    age.wrap plaintext recipients = .ok ciphertext → toPublic identity ∈ recipients →
      age.decrypt ciphertext identity = .ok plaintext
  /-- A ciphertext starts with the header. -/
  headed : age.Headed

theorem Age.Correct.exists_encrypt {age : Age} (hage : age.Correct) {identity : age.Identity}
    {recipients : List age.Recipient} (hmem : hage.toPublic identity ∈ recipients)
    (plaintext : Content) : ∃ ciphertext, encrypt age plaintext recipients = .ok ciphertext ∧
      age.decrypt ciphertext identity = .ok plaintext := by
  have hne : recipients ≠ [] := List.ne_nil_of_mem hmem
  obtain ⟨ciphertext, hwrap⟩ := hage.encrypts plaintext recipients hne
  refine ⟨ciphertext, ?_, hage.decrypts _ _ _ _ hwrap hmem⟩
  rw [encrypt, List.isEmpty_eq_false_iff.2 hne, if_neg Bool.false_ne_true, hwrap]

end Crypto

namespace Cli

/-- A ciphertext that the identity can decrypt. -/
def Decryptable (age : Crypto.Age) (identity : age.Identity) (content : Content) : Prop :=
  content.startsWith Crypto.ageHeader = true ∧
    ∃ plaintext, age.decrypt content identity = .ok plaintext

/-- The two filters of a device with the given identity. -/
structure Inverse {age : Crypto.Age} (hage : age.Correct) (storeRoot : Str)
    (deviceId : Except Str Str) (ensure : Str → Except Crypto.Error age.Identity)
    (identity : age.Identity) : Prop where
  /-- What is stored is checked out as it was. -/
  smudge_clean : ∀ store recipients content,
    store.readToString recipientsFilename = .ok recipients →
    (∃ entry ∈ Crypto.parseRecipients age.fromString recipients,
      entry.recipient = hage.toPublic identity) →
    ¬ Decryptable age identity content →
    (runFilterClean age storeRoot store content).map (runFilterSmudge age deviceId ensure) =
      .ok content
  /-- What is not private passes both filters as it is. -/
  passes : ∀ store content, isPrivate content = false →
    runFilterClean age storeRoot store content = .ok content ∧
      (¬ Decryptable age identity content → runFilterSmudge age deviceId ensure content = content)
  /-- What is private is not stored as it is. -/
  sealed : ∀ store content stored, isPrivate content = true →
    runFilterClean age storeRoot store content = .ok stored →
      stored ≠ content ∧ stored.startsWith Crypto.ageHeader = true
  /-- A ciphertext is stored as it is. -/
  kept : ∀ store content, content.startsWith Crypto.ageHeader = true →
    runFilterClean age storeRoot store content = .ok content

theorem isPrivate_of_startsWith {content : Content}
    (h : content.startsWith Crypto.ageHeader = true) : isPrivate content = false := by
  cases content with
  | binary bytes => rfl
  | text s =>
    obtain ⟨rest, rfl⟩ := List.isPrefixOf_iff_prefix.1 h
    have hparse : Frontmatter.parse (Crypto.ageHeader ++ rest) =
        ⟨default, Crypto.ageHeader ++ rest, []⟩ :=
      Frontmatter.parse_cons (by decide) (by decide) (by decide) _
    rw [isPrivate, Content.fromUtf8]
    simp only [hparse]
    rfl

section

variable {age : Crypto.Age} {deviceId : Except Str Str}
  {ensure : Str → Except Crypto.Error age.Identity} {device : Str} {identity : age.Identity}

theorem runFilterSmudge_of_not_decryptable (hdevice : deviceId = .ok device)
    (hensure : ensure device = .ok identity) {content : Content}
    (h : ¬ Decryptable age identity content) : runFilterSmudge age deviceId ensure content = content := by
  unfold runFilterSmudge
  cases hheader : content.startsWith Crypto.ageHeader with
  | false => rfl
  | true =>
    rw [hdevice]
    simp only [Bool.not_true, Bool.false_eq_true, if_false, hensure]
    cases hdecrypt : age.decrypt content identity with
    | error e => rfl
    | ok plaintext => exact absurd ⟨hheader, plaintext, hdecrypt⟩ h

theorem runFilterSmudge_of_decrypt (hdevice : deviceId = .ok device)
    (hensure : ensure device = .ok identity) {content plaintext : Content}
    (hheader : content.startsWith Crypto.ageHeader = true)
    (h : age.decrypt content identity = .ok plaintext) :
    runFilterSmudge age deviceId ensure content = plaintext := by
  unfold runFilterSmudge
  rw [hheader, hdevice]
  simp only [Bool.not_true, Bool.false_eq_true, if_false, hensure, h]

/-- **The filters undo each other** on a device whose identity is among the recipients. -/
theorem filters_inverse (hage : age.Correct) (hdevice : deviceId = .ok device)
    (hensure : ensure device = .ok identity) (storeRoot : Str) :
    Inverse hage storeRoot deviceId ensure identity where
  smudge_clean store recipients content hrecipients hentry hdecryptable := by
    cases hprivate : isPrivate content with
    | false =>
      rw [runFilterClean_of_not_private age storeRoot store hprivate]
      exact congrArg Except.ok (runFilterSmudge_of_not_decryptable hdevice hensure hdecryptable)
    | true =>
      have hmem : hage.toPublic identity ∈
          (Crypto.parseRecipients age.fromString recipients).map (·.recipient) := by
        obtain ⟨entry, hentry, hkey⟩ := hentry
        rw [← hkey]
        exact List.mem_map_of_mem hentry
      obtain ⟨ciphertext, hencrypt, hdecrypt⟩ := hage.exists_encrypt hmem content
      have hclean : runFilterClean age storeRoot store content = .ok ciphertext := by
        rw [runFilterClean, hprivate, hrecipients]
        simp only [Bool.not_true, Bool.false_eq_true, if_false, hencrypt]
        rfl
      rw [hclean]
      exact congrArg Except.ok (runFilterSmudge_of_decrypt hdevice hensure
        (Crypto.startsWith_of_encrypt hage.headed hencrypt) hdecrypt)
  passes store content hprivate :=
    ⟨runFilterClean_of_not_private age storeRoot store hprivate,
      runFilterSmudge_of_not_decryptable hdevice hensure⟩
  sealed store content stored hprivate hclean := by
    have hheader := runFilterClean_of_private hage.headed hprivate hclean
    refine ⟨?_, hheader⟩
    rintro rfl
    rw [isPrivate_of_startsWith hheader] at hprivate
    cases hprivate
  kept store content hheader :=
    runFilterClean_of_not_private age storeRoot store (isPrivate_of_startsWith hheader)

end

/-! ### An example -/

/-- Decryption of an example ciphertext of either kind. -/
def exampleOpen (content : Content) (identity : Bool) : Except Crypto.Error Content :=
  match content with
  | .text _ => Crypto.exampleDecrypt content identity
  | .binary bytes => match bytes.drop Crypto.ageHeader.length with
    | first :: second :: plaintext =>
      if (if identity then second else first) = 1 then .ok (.binary plaintext)
      else .error (.decrypt "no matching keys".toList)
    | _ => .error (.decrypt "invalid header".toList)

/-- Encryption for examples, to two keys: after the header it says for which of them the plaintext
is, which follows as text or as bytes. -/
def exampleSafe : Crypto.Age where
  Recipient := Bool
  Identity := Bool
  fromString := Crypto.exampleKeys.fromString
  wrap plaintext recipients := match plaintext with
    | .text _ => Crypto.exampleKeys.wrap plaintext recipients
    | .binary bytes => .ok (.binary ((Crypto.ageHeader.map fun c => UInt8.ofNat c.toNat) ++
        (if false ∈ recipients then 1 else 0) :: (if true ∈ recipients then 1 else 0) :: bytes))
  decrypt := exampleOpen

theorem exampleOpen_text {recipients : List Bool} {identity : Bool} (h : identity ∈ recipients)
    (s : Str) : exampleOpen (.text (Crypto.ageHeader ++ ['\n'] ++
      Crypto.exampleFlag recipients false :: Crypto.exampleFlag recipients true :: s)) identity =
        .ok (.text s) := by
  have hflag : Crypto.exampleFlag recipients identity = '1' := if_pos h
  rw [exampleOpen, Crypto.exampleDecrypt, Crypto.exampleBody_text]
  cases identity with
  | false => exact if_pos hflag
  | true => exact if_pos hflag

theorem exampleOpen_binary {recipients : List Bool} {identity : Bool} (h : identity ∈ recipients)
    (bytes : List UInt8) : exampleOpen (.binary ((Crypto.ageHeader.map fun c => UInt8.ofNat c.toNat) ++
      (if false ∈ recipients then 1 else 0) :: (if true ∈ recipients then 1 else 0) :: bytes))
        identity = .ok (.binary bytes) := by
  rw [exampleOpen, List.drop_left' (by rw [List.length_map])]
  cases identity with
  | false => simp [h]
  | true => simp [h]

/-- It is correct. -/
def exampleCorrect : exampleSafe.Correct where
  toPublic identity := identity
  encrypts plaintext recipients _ := by
    cases plaintext <;> exact ⟨_, rfl⟩
  decrypts plaintext recipients ciphertext identity hwrap hmem := by
    cases plaintext with
    | text s =>
      obtain rfl := Except.ok.inj hwrap
      exact exampleOpen_text hmem s
    | binary bytes =>
      obtain rfl := Except.ok.inj hwrap
      exact exampleOpen_binary hmem bytes
  headed plaintext recipients ciphertext hwrap := by
    cases plaintext with
    | text s =>
      obtain rfl := Except.ok.inj hwrap
      exact List.isPrefixOf_iff_prefix.2 ⟨_, (List.append_assoc ..).symm⟩
    | binary bytes =>
      obtain rfl := Except.ok.inj hwrap
      exact List.isPrefixOf_iff_prefix.2 ⟨_, rfl⟩

theorem filters_inverse_exampleSafe :
    Inverse exampleCorrect "store".toList (.ok "a".toList) (fun _ => .ok false) false :=
  filters_inverse exampleCorrect rfl rfl _

end Cli

end Wkp
