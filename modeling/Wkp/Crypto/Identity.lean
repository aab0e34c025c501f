import Wkp.Lib.Files
import Wkp.Lib.Rely

/-!
# The identities of a device

A device makes an identity when it first needs one.  It keeps the identity in the keystore, and where
there is no keystore, in a file.  Any number of processes can do this at once.

* `Crypto.IdentityKind` : the encryption identity and the signing identity.
* `Crypto.ensureIdentity` : get the identity, or make one.
* `Crypto.Places` : the keystore and the file; `Crypto.IdentityExec` : the calls.
-/

namespace Wkp

open Rust

namespace Crypto

/-! ### Calls -/

/-- A kind of identity. -/
structure IdentityKind (I : Type) where
  /-- `to_secret_string`. -/
  toSecretString : I → Except Str Str
  /-- `from_secret_string`. -/
  fromSecretString : Str → Except Str I
  /-- What is read of a file. -/
  fileText : Str → Str

/-- The encryption identity: whitespace around it is passed over in a file. -/
def encryptionIdentity {I : Type} (toSecretString : I → Str)
    (fromSecretString : Str → Except Str I) : IdentityKind I :=
  ⟨fun identity => .ok (toSecretString identity), fromSecretString, trim⟩

/-- The signing identity. -/
def signingIdentity {I : Type} (toSecretString : I → Except Str Str)
    (fromSecretString : Str → Except Str I) : IdentityKind I :=
  ⟨toSecretString, fromSecretString, id⟩

/-- `keyring_core::Error`. -/
inductive KeyError
  | noEntry
  | other (text : Str)
  deriving DecidableEq

/-- A call.  A secret is ASCII, so that a byte of the file is a character. -/
inductive IdentityCall
  | getSecret
  | setSecret (secret : Str)
  | generate
  | openFile
  | readToString
  | createDirAll
  | createNew
  | write (c : Char)
  deriving DecidableEq

/-- The reply to a call. -/
abbrev IdentityCall.Reply (I : Type) : IdentityCall → Type
  | getSecret => Except KeyError Content
  | generate => Except Str I
  | openFile => Bool
  | readToString => Except Str Str
  | setSecret _ | createDirAll | createNew | write _ => Except Str Unit

/-- A program that gets an identity. -/
abbrev Ensuring (I α : Type) := Script (IdentityCall.Reply I) Str α

/-! ### The program -/

section Program

variable {I : Type} (kind : IdentityKind I)

/-- A value that may be an error. -/
def value {α : Type} (x : Except Str α) : Ensuring I α := ExceptT.mk (Program.pure x)

/-- A call. -/
def request (c : IdentityCall) : Program (IdentityCall.Reply I) (IdentityCall.Reply I c) :=
  Program.perform c

/-- A new identity. -/
def generate : Ensuring I I := ExceptT.mk (request .generate)

/-- `write_all`, byte by byte. -/
def writeAll : Str → Ensuring I Unit
  | [] => pure ()
  | c :: rest => do
    ExceptT.mk (request (.write c))
    writeAll rest

/-- `get_or_create`. -/
def getOrCreate : Ensuring I I := do
  match ← ExceptT.lift (request .getSecret) with
  | .ok secret => match secret.fromUtf8 with
    | none => throw "keystore entry was not UTF-8".toList
    | some s => value (kind.fromSecretString s)
  | .error .noEntry =>
    let identity ← generate
    let secret ← value (kind.toSecretString identity)
    ExceptT.mk (request (.setSecret secret))
    return identity
  | .error (.other e) => throw e

/-- `file_fallback::ensure`. -/
def fileFallback : Ensuring I I := do
  if ← ExceptT.lift (request .openFile) then
    let contents ← ExceptT.mk (request .readToString)
    value (kind.fromSecretString (kind.fileText contents))
  else
    let identity ← generate
    ExceptT.mk (request .createDirAll)
    ExceptT.mk (request .createNew)
    let secret ← value (kind.toSecretString identity)
    writeAll secret
    return identity

/-- `ensure`: whatever is wrong with the keystore, the file is next. -/
def ensureIdentity : Ensuring I I := ExceptT.mk do
  match ← (getOrCreate kind).run with
  | .ok identity => pure (.ok identity)
  | .error _ => (fileFallback kind).run

end Program

/-! ### The keystore and the file -/

/-- Where the identity can be. -/
structure Places where
  /-- The entry of the keystore. -/
  keystore : Option Content := none
  /-- The file. -/
  file : Option Str := none
  deriving DecidableEq

/-- A call.  Each of them can fail at any time. -/
inductive IdentityExec (I : Type) :
    Places → Program.Exchange (IdentityCall.Reply I) → Places → Prop
  | found {s : Places} {secret : Content} (h : s.keystore = some secret) :
      IdentityExec I s ⟨.getSecret, .ok secret⟩ s
  | absent {s : Places} (h : s.keystore = none) :
      IdentityExec I s ⟨.getSecret, .error .noEntry⟩ s
  | unreachable (s : Places) (e : Str) : IdentityExec I s ⟨.getSecret, .error (.other e)⟩ s
  | set (s : Places) (secret : Str) :
      IdentityExec I s ⟨.setSecret secret, .ok ()⟩ { s with keystore := some (.text secret) }
  | notSet (s : Places) (secret e : Str) : IdentityExec I s ⟨.setSecret secret, .error e⟩ s
  -- the answer of the keystore is lost
  | setUnheard (s : Places) (secret e : Str) :
      IdentityExec I s ⟨.setSecret secret, .error e⟩ { s with keystore := some (.text secret) }
  | generate (s : Places) (r : Except Str I) : IdentityExec I s ⟨.generate, r⟩ s
  | opened {s : Places} (h : s.file ≠ none) : IdentityExec I s ⟨.openFile, true⟩ s
  | notOpened (s : Places) : IdentityExec I s ⟨.openFile, false⟩ s
  | read {s : Places} {text : Str} (h : s.file = some text) :
      IdentityExec I s ⟨.readToString, .ok text⟩ s
  | notRead (s : Places) (e : Str) : IdentityExec I s ⟨.readToString, .error e⟩ s
  | createDirAll (s : Places) (r : Except Str Unit) : IdentityExec I s ⟨.createDirAll, r⟩ s
  | createNew {s : Places} (h : s.file = none) :
      IdentityExec I s ⟨.createNew, .ok ()⟩ { s with file := some [] }
  | notCreated (s : Places) (e : Str) : IdentityExec I s ⟨.createNew, .error e⟩ s
  | write {s : Places} {text : Str} (c : Char) (h : s.file = some text) :
      IdentityExec I s ⟨.write c, .ok ()⟩ { s with file := some (text ++ [c]) }
  | notWritten (s : Places) (c : Char) (e : Str) : IdentityExec I s ⟨.write c, .error e⟩ s

end Crypto

end Wkp
