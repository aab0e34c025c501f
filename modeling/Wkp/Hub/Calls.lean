import Wkp.Hub.ControlPlane

/-!
# What the hub calls

The handlers of the hub are programs over these calls: statements, the clock, the certificate
authority, the container runtime and the pods of the tenants.

* `Hub.Call`, `Hub.Reply` : the calls and their replies.
* `Hub.World` : the tables, the clock and the pods.
* `Hub.Answers` : a call is carried out.  Time never goes back.
* `Hub.Exec` : a call is carried out, or it fails and changes nothing.
-/

namespace Wkp

open Rust

namespace Hub

/-! ### Calls -/

/-- `SignedDeviceCert`. -/
structure SignedDeviceCert where
  /-- The certificate. -/
  certificatePem : Str
  /-- Its serial number, read back from the certificate. -/
  serialHex : Str
  /-- The public key of the request. -/
  publicKeyRaw : Str
  /-- When the certificate becomes valid. -/
  notBefore : ℕ
  /-- When the certificate expires. -/
  notAfter : ℕ
  deriving DecidableEq, Repr

/-- What the cryptographic libraries compute. -/
structure Crypto where
  /-- The ed25519 public key of a signing request. -/
  csrPublicKey : Str → Option Str
  /-- `openssh_public_key_from_raw_ed25519`. -/
  opensshPublicKey : Str → Except Str Str
  /-- `cert_serial_hex`. -/
  certSerialHex : Str → Option Str
  /-- The certificate of the root of the hub. -/
  rootCertPem : Str
  /-- There are certificates. -/
  certified : ∃ certificatePem, (certSerialHex certificatePem).isSome = true

/-- The commands that are run for the pod of a tenant. -/
inductive PodCommand
  | inspect (pod : Str)
  | networkExists
  | networkCreate
  | rm (pod : Str)
  | create (pod networkAlias : Str)
  | runServe (pod container mount image tenantSlug : Str)
  | writeSeccompProfile (path : Str)
  | runIndex (pod container seccomp mount image tenantSlug : Str)
  deriving DecidableEq, Repr

/-- A request to the pod of a tenant. -/
structure ProxyRequest where
  /-- The URL. -/
  url : Str
  /-- The method. -/
  method : Str
  /-- The content type of the request. -/
  contentType : Option Str
  /-- The body of the request. -/
  body : List UInt8
  deriving DecidableEq, Repr

/-- What a pod answers. -/
structure ProxyResponse where
  /-- The status. -/
  status : ℕ
  /-- The headers. -/
  headers : List (Str × Str)
  /-- The body. -/
  body : List UInt8
  deriving DecidableEq, Repr

/-- A call. -/
inductive Call
  | connect
  | sql (q : Statement)
  | now
  | signDeviceCsr (csrPem : Str)
  | startPod (image reposRoot tenantSlug : Str)
  | stopPod (tenantSlug : Str)
  | podman (command : PodCommand)
  | proxy (request : ProxyRequest)
  deriving DecidableEq, Repr

/-- The reply to a call. -/
abbrev Reply : Call → Type
  | .connect => Except Error Unit
  | .sql q => Except Error q.Result
  | .now => ℕ
  | .signDeviceCsr _ => Except Str SignedDeviceCert
  | .startPod _ _ _ | .stopPod _ => Except Str Unit
  | .podman (.inspect _) => Except Str (Option Str)
  | .podman .networkExists => Except Str Bool
  | .podman _ => Except Str Unit
  | .proxy _ => Except Str ProxyResponse

/-- A program of the hub. -/
abbrev Handler := Program Reply

/-- `control_plane::connect`. -/
def connect : Handler (Except Error Unit) := Program.perform Call.connect

/-- A statement. -/
def sql (q : Statement) : Handler (Except Error q.Result) := Program.perform (Call.sql q)

/-- `OffsetDateTime::now_utc`. -/
def nowUtc : Handler ℕ := Program.perform Call.now

/-- `HubCa::sign_device_csr`. -/
def signDeviceCsr (csrPem : Str) : Handler (Except Str SignedDeviceCert) :=
  Program.perform (Call.signDeviceCsr csrPem)

/-! ### The world -/

/-- The containers of a pod that are running. -/
structure Pod where
  /-- The serving container. -/
  serve : Bool := false
  /-- The indexing container. -/
  index : Bool := false
  deriving DecidableEq, Repr

/-- The state that podman reports for a pod. -/
def Pod.state (pod : Pod) : Str :=
  if pod.serve ∨ pod.index then "Running".toList else "Created".toList

/-- The tables, the clock, and the pods by name. -/
structure World where
  /-- The tables. -/
  db : Db := {}
  /-- The clock. -/
  clock : ℕ := 0
  /-- The pods. -/
  pods : Str → Option Pod := fun _ => none
  /-- The network of the pods exists. -/
  network : Bool := false

/-- A command of the container runtime that does what it is for. -/
inductive PodCommand.Runs : World → (command : PodCommand) → Reply (.podman command) → World → Prop
  | inspect (w : World) (pod : Str) : Runs w (.inspect pod) (.ok ((w.pods pod).map Pod.state)) w
  | networkExists (w : World) : Runs w .networkExists (.ok w.network) w
  | networkCreate (w : World) : Runs w .networkCreate (.ok ()) { w with network := true }
  | rm (w : World) (pod : Str) :
      Runs w (.rm pod) (.ok ()) { w with pods := Function.update w.pods pod none }
  | create {w : World} {pod : Str} (networkAlias : Str) (h : w.pods pod = none) :
      Runs w (.create pod networkAlias) (.ok ()) { w with pods := Function.update w.pods pod (some {}) }
  | runServe {w : World} {pod : Str} {p : Pod} (container mount image tenantSlug : Str)
      (h : w.pods pod = some p) : Runs w (.runServe pod container mount image tenantSlug) (.ok ())
        { w with pods := Function.update w.pods pod (some { p with serve := true }) }
  | writeSeccompProfile (w : World) (path : Str) : Runs w (.writeSeccompProfile path) (.ok ()) w
  | runIndex {w : World} {pod : Str} {p : Pod} (container seccomp mount image tenantSlug : Str)
      (h : w.pods pod = some p) : Runs w (.runIndex pod container seccomp mount image tenantSlug)
        (.ok ()) { w with pods := Function.update w.pods pod (some { p with index := true }) }

/-- A call is carried out. -/
inductive Answers (C : Crypto) : World → Program.Exchange Reply → World → Prop
  | connect (w : World) : Answers C w ⟨.connect, .ok ()⟩ w
  | sql (w : World) (q : Statement) :
      Answers C w ⟨.sql q, (q.run w.clock w.db).1⟩ { w with db := (q.run w.clock w.db).2 }
  | now {w : World} {t : ℕ} (h : w.clock ≤ t) : Answers C w ⟨.now, t⟩ { w with clock := t }
  | signDeviceCsr (w : World) {csrPem : Str} {signed : SignedDeviceCert}
      (hkey : C.csrPublicKey csrPem = some signed.publicKeyRaw)
      (hserial : C.certSerialHex signed.certificatePem = some signed.serialHex) :
      Answers C w ⟨.signDeviceCsr csrPem, .ok signed⟩ w
  | signRejected (w : World) {csrPem : Str} (e : Str) (h : C.csrPublicKey csrPem = none) :
      Answers C w ⟨.signDeviceCsr csrPem, .error e⟩ w
  | startPod (w : World) (image reposRoot tenantSlug : Str) (pods : Str → Option Pod) :
      Answers C w ⟨.startPod image reposRoot tenantSlug, .ok ()⟩ { w with pods := pods }
  | stopPod (w : World) (tenantSlug : Str) (pods : Str → Option Pod) :
      Answers C w ⟨.stopPod tenantSlug, .ok ()⟩ { w with pods := pods }
  | podman {w w' : World} {command : PodCommand} {r : Reply (.podman command)}
      (h : command.Runs w r w') : Answers C w ⟨.podman command, r⟩ w'
  | proxy (w : World) (request : ProxyRequest) (response : ProxyResponse) :
      Answers C w ⟨.proxy request, .ok response⟩ w

/-- The reply of a call that failed.  `podman pod inspect` and `podman network exists` that exit with an
error are taken for an answer: there is none. -/
inductive Fails : (c : Call) → Reply c → Prop
  | connect (e : Error) : Fails .connect (.error e)
  | sql (q : Statement) (e : Error) : Fails (.sql q) (.error e)
  | signDeviceCsr (csrPem e : Str) : Fails (.signDeviceCsr csrPem) (.error e)
  | startPod (image reposRoot tenantSlug e : Str) :
      Fails (.startPod image reposRoot tenantSlug) (.error e)
  | stopPod (tenantSlug e : Str) : Fails (.stopPod tenantSlug) (.error e)
  | inspect (pod e : Str) : Fails (.podman (.inspect pod)) (.error e)
  | inspectExit (pod : Str) : Fails (.podman (.inspect pod)) (.ok none)
  | networkExists (e : Str) : Fails (.podman .networkExists) (.error e)
  | networkExistsExit : Fails (.podman .networkExists) (.ok false)
  | networkCreate (e : Str) : Fails (.podman .networkCreate) (.error e)
  | rm (pod e : Str) : Fails (.podman (.rm pod)) (.error e)
  | create (pod networkAlias e : Str) : Fails (.podman (.create pod networkAlias)) (.error e)
  | runServe (pod container mount image tenantSlug e : Str) :
      Fails (.podman (.runServe pod container mount image tenantSlug)) (.error e)
  | writeSeccompProfile (path e : Str) : Fails (.podman (.writeSeccompProfile path)) (.error e)
  | runIndex (pod container seccomp mount image tenantSlug e : Str) :
      Fails (.podman (.runIndex pod container seccomp mount image tenantSlug)) (.error e)
  | proxy (request : ProxyRequest) (e : Str) : Fails (.proxy request) (.error e)

/-- A call is carried out, or it fails and changes nothing. -/
inductive Exec (C : Crypto) : World → Program.Exchange Reply → World → Prop
  | answers {w w' : World} {e : Program.Exchange Reply} (h : Answers C w e w') : Exec C w e w'
  | fails (w : World) {c : Call} {r : Reply c} (h : Fails c r) : Exec C w ⟨c, r⟩ w

/-! ### A hub where every statement succeeds -/

/-- Signing requests are keys, and certificates are serial numbers. -/
def exampleCrypto : Crypto := ⟨some, .ok, some, "root".toList, [], rfl⟩

/-- The answers of a hub whose statements do not fail, and whose next certificate has the given serial
number.  There is no container runtime. -/
def exampleAnswer (serial : Str) (w : World) : (c : Call) → Reply c × World
  | .connect => (.ok (), w)
  | .sql q => ((q.run w.clock w.db).1, { w with db := (q.run w.clock w.db).2 })
  | .now => (w.clock, w)
  | .signDeviceCsr csrPem => (.ok ⟨serial, serial, csrPem, 0, 1⟩, w)
  | .startPod _ _ _ => (.error [], w)
  | .stopPod _ => (.error [], w)
  | .podman (.inspect _) => (.error [], w)
  | .podman .networkExists => (.error [], w)
  | .podman .networkCreate => (.error [], w)
  | .podman (.rm _) => (.error [], w)
  | .podman (.create _ _) => (.error [], w)
  | .podman (.runServe _ _ _ _ _) => (.error [], w)
  | .podman (.writeSeccompProfile _) => (.error [], w)
  | .podman (.runIndex _ _ _ _ _ _) => (.error [], w)
  | .proxy _ => (.error [], w)

theorem exec_exampleAnswer (serial : Str) (w : World) (c : Call) :
    Exec exampleCrypto w ⟨c, (exampleAnswer serial w c).1⟩ (exampleAnswer serial w c).2 := by
  cases c with
  | connect => exact .answers (.connect w)
  | sql q => exact .answers (.sql w q)
  | now => exact .answers (.now le_rfl)
  | signDeviceCsr csrPem => exact .answers (.signDeviceCsr w rfl rfl)
  | startPod => exact .fails w (.startPod _ _ _ _)
  | stopPod => exact .fails w (.stopPod _ _)
  | podman command =>
    cases command with
    | inspect => exact .fails w (.inspect _ _)
    | networkExists => exact .fails w (.networkExists _)
    | networkCreate => exact .fails w (.networkCreate _)
    | rm => exact .fails w (.rm _ _)
    | create => exact .fails w (.create _ _ _)
    | runServe => exact .fails w (.runServe _ _ _ _ _ _)
    | writeSeccompProfile => exact .fails w (.writeSeccompProfile _ _)
    | runIndex => exact .fails w (.runIndex _ _ _ _ _ _ _)
  | proxy => exact .fails w (.proxy _ _)

/-- A hub with a tenant. -/
def exampleWorld : World :=
  { db := { tenants := [⟨1, "acme".toList, false, false, none, 0⟩], nextTenantId := 2 } }

theorem exampleWorld_wellFormed : exampleWorld.db.WellFormed := by
  constructor <;> simp [exampleWorld, Table.Keyed]

end Hub

end Wkp
