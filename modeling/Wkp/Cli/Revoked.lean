import Wkp.Cli.Signed

/-!
# Revoking a device

* `Cli.Revoked` : the device can read none of the markdown files, and is no recipient.
* `Cli.Reaches` : what the command has to find in the store for that.
* `Cli.revoked_iff` : a device that was revoked is so exactly then.
-/

namespace Wkp

open Rust Git

namespace Cli

section Revocation

variable {age : Crypto.Age} (ideal : age.Ideal)

/-- The key is registered under the label of the device. -/
def IsKeyOf (age : Crypto.Age) (deviceId recipients : Str) (key : age.Recipient) : Prop :=
  ∃ entry ∈ Crypto.parseRecipients age.fromString recipients,
    entry.label = deviceLabel deviceId ∧ entry.recipient = key

/-- Some identity of the key decrypts the content. -/
def Readable (key : age.Recipient) (content : Content) : Prop :=
  ∃ identity plaintext, ideal.toPublic identity = key ∧ age.decrypt content identity = .ok plaintext

/-- Between the two states the device was revoked: of its keys, none reads a markdown file in `HEAD`
and none is a recipient there. -/
def Revoked (deviceId : Str) (r r' : Repo) : Prop :=
  ∀ recipients key, r.worktree.readToString recipientsFilename = .ok recipients →
    IsKeyOf age deviceId recipients key →
      (∀ p blob, ".md".toList.isSuffixOf p = true → r'.headTree.lookup p = some blob →
        ¬ Readable ideal key blob) ∧
      ∃ text, r'.headTree.lookup recipientsFilename = some (.text text) ∧
        ∀ entry ∈ Crypto.parseRecipients age.fromString text, entry.recipient ≠ key

/-- Of the keys of the device, none is registered under another label too, and none reads what is
staged at a markdown file that is not stored anew. -/
def Reaches (H : Host) (deviceId : Str) (r : Repo) : Prop :=
  ∀ recipients key, r.worktree.readToString recipientsFilename = .ok recipients →
    IsKeyOf age deviceId recipients key →
      (∀ entry ∈ Crypto.parseRecipients age.fromString recipients,
        entry.label ≠ deviceLabel deviceId → entry.recipient ≠ key) ∧
      ∀ p blob, ".md".toList.isSuffixOf p = true → p ∉ privatePaths H r →
        r.stagedAt p = some blob → ¬ Readable ideal key blob

/-- A host with the encryption filters. -/
def withFilters (H : Host) (age : Crypto.Age) (storeRoot : Str) (deviceId : Except Str Str)
    (ensure : Str → Except Crypto.Error age.Identity) : Host :=
  { H with filters := filters age storeRoot deviceId ensure }

/-! ### Names of markdown files -/

theorem md_suffix_of_extension {p : Str} (hverify : verifyPath p = true)
    (h : Path.extension p = some "md".toList) : ".md".toList.isSuffixOf p = true := by
  obtain ⟨name, hname, hsuffix⟩ := Path.suffix_of_extension h
  rw [Path.fileName, components_of_verifyPath hverify, List.getLast?_map] at hname
  cases hl : (split '/' p).getLast? with
  | none => rw [hl] at hname; cases hname
  | some name' =>
    rw [hl] at hname
    obtain rfl : name' = name := Option.some.inj hname
    have hjoin : name' <:+ join ['/'] (split '/' p) := getLast_suffix_join hl
    rw [join, split, List.intercalate_splitOn] at hjoin
    rw [List.isSuffixOf_iff_suffix]
    exact hsuffix.trans hjoin

/-! ### What is stored anew -/

variable {ideal} {H : Host} {r r' : Repo} {storeRoot : Str} {device : Except Str Str}
  {ensure : Str → Except Crypto.Error age.Identity}

theorem readable_of_clean {store : Files} {path text recipients : Str} {blob : Content}
    (hmd : ".md".toList.isSuffixOf path = true) (hprivate : isPrivate (.text text) = true)
    (hread : store.readToString recipientsFilename = .ok recipients)
    (hclean : (filters age storeRoot device ensure).clean store path (.text text) = .ok blob)
    (key : age.Recipient) (h : Readable ideal key blob) :
    ∃ entry ∈ Crypto.parseRecipients age.fromString recipients, entry.recipient = key := by
  obtain ⟨identity, plaintext, rfl, hdecrypt⟩ := h
  have henc := (ideal.decrypt_iff blob identity).1 ⟨plaintext, hdecrypt⟩
  change (if _ then runFilterClean age storeRoot store (.text text) else _) = _ at hclean
  rw [if_pos hmd, runFilterClean, hprivate, if_neg (by decide), hread] at hclean
  dsimp only at hclean
  cases hx : Crypto.encrypt age (.text text)
      ((Crypto.parseRecipients age.fromString recipients).map (·.recipient)) with
  | error e => rw [hx] at hclean; cases hclean
  | ok ciphertext =>
    rw [hx] at hclean
    obtain rfl := Except.ok.inj hclean
    rw [Crypto.encrypt] at hx
    split_ifs at hx
    rw [ideal.encryptedTo_wrap _ _ _ hx, List.mem_map] at henc
    exact henc

theorem of_mem_privatePaths {p : Str} (hverify : verifyPath p = true)
    (h : p ∈ privatePaths H r) : ".md".toList.isSuffixOf p = true ∧ p ≠ recipientsFilename ∧
      ∃ text, r.worktree.lookup p = some (.text text) ∧ isPrivate (.text text) = true := by
  rw [privatePaths, List.mem_filter, Bool.and_eq_true, decide_eq_true_eq] at h
  obtain ⟨-, hext, hprivate⟩ := h
  refine ⟨md_suffix_of_extension hverify hext, ?_, ?_⟩
  · rintro rfl
    exact absurd hext (by decide)
  · cases hread : r.readToString H.root p with
    | error e => rw [hread] at hprivate; cases hprivate
    | ok text =>
      rw [hread] at hprivate
      have hfile := Repo.fileAt_of_readToString hread
      rw [target_of_verifyPath H.root hverify] at hfile
      exact ⟨text, hfile, hprivate⟩

/-- **A device is revoked exactly when the command reaches everything it can read**: its keys are
under no other label, and what it reads is in the worktree as a private text. -/
theorem revoked_iff (ideal : age.Ideal) (H : Host) (storeRoot : Str) (device : Except Str Str)
    (ensure : Str → Except Crypto.Error age.Identity) (opts : ForgetOptions) (deviceId : Str)
    (r : Repo)
    (hok : (Effect.exec (runForgetDevice (withFilters H age storeRoot device ensure) opts age
      deviceId) r).1.isOk = true) :
    Revoked ideal deviceId r (Effect.exec (runForgetDevice
        (withFilters H age storeRoot device ensure) opts age deviceId) r).2 ↔
      Reaches ideal (withFilters H age storeRoot device ensure) deviceId r := by
  obtain ⟨summary, h⟩ := Effect.exists_exec_eq_ok hok
  set H' := withFilters H age storeRoot device ensure with hH'
  set r' := (Effect.exec (runForgetDevice H' opts age deviceId) r).2 with hr'
  obtain ⟨updated, hplan, hworktree, hpaths, htree⟩ := headTree_of_runForgetDevice h
  obtain ⟨existing, hread, -, hremove⟩ := (planForgetDevice_eq_ok hplan).2
  have hparse := Crypto.parseRecipients_removeRecipient age.fromString hremove
  have hread' : r'.worktree.readToString recipientsFilename = .ok updated := by
    rw [hworktree, Files.readToString, AList.lookup_insert]
    rfl
  -- the recipients file is not filtered
  have hrecipients : r'.headTree.lookup recipientsFilename = some (.text updated) := by
    rw [htree, if_pos List.mem_cons_self, Repo.cleaned, Repo.fileAt, hworktree,
      AList.lookup_insert]
    rfl
  have hothers : ∀ key, (∀ entry ∈ Crypto.parseRecipients age.fromString updated,
      entry.recipient ≠ key) ↔ ∀ entry ∈ Crypto.parseRecipients age.fromString existing,
        entry.label ≠ deviceLabel deviceId → entry.recipient ≠ key := by
    intro key
    rw [hparse]
    simp only [List.mem_filter, decide_eq_true_eq, and_imp]
  constructor
  · intro hrevoked recipients key hrec hkey
    obtain rfl := Except.ok.inj (hread.symm.trans hrec)
    obtain ⟨hblobs, text, htext, hno⟩ := hrevoked existing key hread hkey
    obtain rfl : updated = text := by
      rw [hrecipients] at htext
      exact Content.text.inj (Option.some.inj htext)
    refine ⟨(hothers key).1 hno, fun p blob hmd hp hstaged => hblobs p blob hmd ?_⟩
    rw [htree, if_neg, hstaged]
    rw [List.mem_cons, not_or]
    refine ⟨?_, hp⟩
    rintro rfl
    exact absurd hmd (by decide)
  · intro hreach recipients key hrec hkey
    obtain rfl := Except.ok.inj (hread.symm.trans hrec)
    obtain ⟨hlabels, hstaged⟩ := hreach existing key hread hkey
    refine ⟨fun p blob hmd hblob => ?_, updated, hrecipients, (hothers key).2 hlabels⟩
    rw [htree] at hblob
    by_cases hp : p ∈ recipientsFilename :: privatePaths H' r
    · rw [if_pos hp] at hblob
      have hverify := (hpaths p hp).1
      have hp' : p ∈ privatePaths H' r := by
        rcases List.mem_cons.1 hp with rfl | hp
        · exact absurd hmd (by decide)
        · exact hp
      obtain ⟨-, hne, text, htext, hprivate⟩ := of_mem_privatePaths hverify hp'
      rw [Repo.cleaned, Repo.fileAt, hworktree, AList.lookup_insert_ne hne, htext,
        Option.bind_some] at hblob
      cases hclean : H'.filters.clean (r.worktree.insert recipientsFilename (.text updated)) p
          (.text text) with
      | error e => rw [hclean] at hblob; cases hblob
      | ok emitted =>
        rw [hclean] at hblob
        obtain rfl := Option.some.inj hblob
        intro hreadable
        rw [hworktree] at hread'
        obtain ⟨entry, hentry, hrecipient⟩ :=
          readable_of_clean hmd hprivate hread' hclean key hreadable
        exact (hothers key).2 hlabels entry hentry hrecipient
    · rw [if_neg hp] at hblob
      rw [List.mem_cons, not_or] at hp
      exact hstaged p blob hmd hp.2 hblob

end Revocation

/-! ### A store with one private file -/

/-- A private file. -/
def examplePrivateFile : Content := .text "---\nvisibility: private\n---\nkey\n".toList

/-- The file as it is stored for both devices. -/
def exampleCiphertext : Content :=
  (Crypto.exampleKeys.wrap examplePrivateFile [false, true]).toOption.getD (.text [])

/-- A store with two devices, where the private file is checked out as the given content. -/
def exampleShared (file : Content) : Repo where
  head := none
  index := AList.singleton "n.md".toList (.staged exampleCiphertext)
  worktree := (AList.singleton recipientsFilename
    (.text "device:a k1\ndevice:b k2\n".toList)).insert "n.md".toList file

/-- The host of the example, with its filters. -/
def exampleCryptHost : Host :=
  withFilters exampleHost Crypto.exampleKeys "store".toList (.ok "a".toList) fun _ => .ok false

theorem parseRecipients_exampleShared : Crypto.parseRecipients Crypto.exampleKeys.fromString
    "device:a k1\ndevice:b k2\n".toList =
      [⟨"device:a".toList, .device, (false : Bool)⟩,
        ⟨"device:b".toList, .device, (true : Bool)⟩] := by
  decide +kernel

theorem revoked_iff_exampleShared :
    Revoked Crypto.exampleIdeal "b".toList (exampleShared examplePrivateFile)
      (Effect.exec (runForgetDevice exampleCryptHost exampleForgetting Crypto.exampleKeys
        "b".toList) (exampleShared examplePrivateFile)).2 := by
  refine (revoked_iff Crypto.exampleIdeal exampleHost "store".toList (.ok "a".toList)
    (fun _ => .ok false) exampleForgetting "b".toList (exampleShared examplePrivateFile)
    (by decide +kernel)).2 ?_
  rintro recipients key hread ⟨entry, hentry, hlabel, rfl⟩
  have hfile : (exampleShared examplePrivateFile).worktree.readToString recipientsFilename =
      .ok "device:a k1\ndevice:b k2\n".toList := rfl
  obtain rfl := Except.ok.inj (hfile.symm.trans hread)
  refine ⟨fun other hother hne => ?_, fun p blob _ hp hstaged => ?_⟩
  · rw [parseRecipients_exampleShared] at hentry hother
    rcases List.mem_pair.1 hentry with rfl | rfl
    · exact absurd hlabel (by decide)
    · rcases List.mem_pair.1 hother with rfl | rfl
      · exact Bool.false_ne_true
      · exact absurd rfl hne
  · have hkey := List.mem_singleton.1
      (AList.mem_lookup_iff.1 ((Repo.stagedAt_eq_some _).1 hstaged))
    obtain rfl := (Sigma.mk.inj hkey).1
    exact absurd (by decide +kernel) hp

/-- The private file is checked out as it is stored, say because this device cannot read it: the
command succeeds, and the device that it revoked can still read the file in `HEAD`. -/
theorem not_revoked_exampleShared :
    (Effect.exec (runForgetDevice exampleCryptHost exampleForgetting Crypto.exampleKeys
        "b".toList) (exampleShared exampleCiphertext)).1.isOk = true ∧
      ¬ Revoked Crypto.exampleIdeal "b".toList (exampleShared exampleCiphertext)
        (Effect.exec (runForgetDevice exampleCryptHost exampleForgetting Crypto.exampleKeys
          "b".toList) (exampleShared exampleCiphertext)).2 := by
  refine ⟨by decide +kernel, fun hrevoked => ?_⟩
  have hkey : IsKeyOf Crypto.exampleKeys "b".toList "device:a k1\ndevice:b k2\n".toList true :=
    ⟨⟨"device:b".toList, .device, true⟩,
      parseRecipients_exampleShared ▸ List.mem_pair.2 (.inr rfl), rfl, rfl⟩
  have hblob := (hrevoked _ true rfl hkey).1 "n.md".toList exampleCiphertext (by decide)
    (by decide +kernel)
  exact hblob ⟨true, examplePrivateFile, rfl, by decide +kernel⟩

end Cli

end Wkp
