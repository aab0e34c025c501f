import Wkp.Core.Frontmatter
import Wkp.Crypto.Recipients
import Wkp.Git.Repo
import Wkp.Lib.Path

/-!
# The encryption filters

* `Cli.runFilterClean`, `Cli.runFilterSmudge` : what git stores for a file of the worktree, and what
  it checks out for a stored content.
* `Cli.runFilterClean_of_private` : of a private file it stores a ciphertext or nothing.
-/

namespace Wkp

open Rust

namespace Cli

/-- The recipients file of a store. -/
def recipientsFilename : Str := "recipients".toList

/-- The file is text, and its frontmatter says that it is private. -/
def isPrivate (content : Content) : Bool :=
  match content.fromUtf8 with
  | none => false
  | some text => decide ((Frontmatter.parse text).frontmatter.visibility = some .private)

/-- The clean direction: a private file is encrypted to the recipients of the store, any other
passes through.  Every error makes git refuse the file. -/
def runFilterClean (age : Crypto.Age) (storeRoot : Str) (store : Files) (content : Content) :
    Except Str Content :=
  if !isPrivate content then .ok content
  else match store.readToString recipientsFilename with
    | .error e => .error ("reading recipients file ".toList ++
        Path.under storeRoot recipientsFilename ++ ": ".toList ++ e ++
        " (a visibility: private file cannot be committed until this store has at least ".toList ++
        "one registered recipient -- run `wkp init` to register this device)".toList)
    | .ok recipients =>
      (Crypto.encrypt age content
        ((Crypto.parseRecipients age.fromString recipients).map (·.recipient))).mapError
          Crypto.Error.display

/-- The smudge direction: a ciphertext is decrypted when this device has an identity that can; any
failure leaves it as it is. -/
def runFilterSmudge (age : Crypto.Age) (deviceId : Except Str Str)
    (ensure : Str → Except Crypto.Error age.Identity) (content : Content) : Content :=
  if !content.startsWith Crypto.ageHeader then content
  else match deviceId with
    | .error _ => content
    | .ok deviceId => match ensure deviceId with
      | .error _ => content
      | .ok identity => match age.decrypt content identity with
        | .error _ => content
        | .ok plaintext => plaintext

/-- Git runs the filters on every markdown file (`*.md filter=wkp-crypt`). -/
def filters (age : Crypto.Age) (storeRoot : Str) (deviceId : Except Str Str)
    (ensure : Str → Except Crypto.Error age.Identity) : Git.Filters where
  clean store path content :=
    if ".md".toList.isSuffixOf path then runFilterClean age storeRoot store content
    else .ok content
  smudge path content :=
    if ".md".toList.isSuffixOf path then runFilterSmudge age deviceId ensure content else content

/-- The filters of a device without an identity, for examples. -/
def exampleFilters : Git.Filters :=
  filters Crypto.exampleAge "store".toList (.ok "a".toList) fun _ => .ok ()

/-- **A private file is never stored as it is**: what the filter emits is a ciphertext. -/
theorem runFilterClean_of_private {age : Crypto.Age} (h : age.Headed) {storeRoot : Str}
    {store : Files} {content emitted : Content} (hp : isPrivate content = true)
    (hc : runFilterClean age storeRoot store content = .ok emitted) :
    emitted.startsWith Crypto.ageHeader = true := by
  rw [runFilterClean, hp, if_neg (by decide)] at hc
  cases hr : store.readToString recipientsFilename with
  | error e => rw [hr] at hc; cases hc
  | ok recipients =>
    rw [hr] at hc
    simp only at hc
    cases he : Crypto.encrypt age content
        ((Crypto.parseRecipients age.fromString recipients).map (·.recipient)) with
    | error e => rw [he] at hc; cases hc
    | ok ciphertext =>
      rw [he] at hc
      obtain rfl := Except.ok.inj hc
      exact Crypto.startsWith_of_encrypt h he

theorem runFilterClean_of_not_private (age : Crypto.Age) (storeRoot : Str) (store : Files)
    {content : Content} (hp : isPrivate content = false) :
    runFilterClean age storeRoot store content = .ok content := by
  rw [runFilterClean, hp, if_pos (by decide)]

theorem smudge_of_not_startsWith (age : Crypto.Age) (storeRoot : Str) (deviceId : Except Str Str)
    (ensure : Str → Except Crypto.Error age.Identity) (path : Str) {content : Content}
    (h : content.startsWith Crypto.ageHeader = false) :
    (filters age storeRoot deviceId ensure).smudge path content = content := by
  have hsmudge : runFilterSmudge age deviceId ensure content = content := by
    unfold runFilterSmudge
    rw [h]
    rfl
  change (if _ then runFilterSmudge age deviceId ensure content else content) = content
  rw [hsmudge, ite_self]

end Cli

end Wkp
