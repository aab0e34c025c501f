import Wkp.Cli.Wkpd
import Wkp.Hub.Enrollment
import Wkp.Lib.Path
import Wkp.Lib.Rely

/-!
# `wkp hub register`

The client side of enrollment: it asks the hub for a grant and polls until the grant is approved or
its time is up.

* `Cli.RegisterCall` : what the client calls.
* `Cli.TokenResponse.read` : what the client reads from the body of a response.
* `Cli.pollToken` : the loop, for a number of polls.
* `Cli.runHubRegister` : the command.
-/

namespace Wkp

open Rust

namespace Cli

/-! ### Calls -/

/-- The signing identity of a store: its request for a certificate, and its private key as git reads
it. -/
structure HubIdentity where
  /-- `to_csr_pem`. -/
  csrPem : Except Str Str
  /-- `to_pkcs8_pem`. -/
  pkcs8Pem : Except Str Str

/-- A call of the client. -/
inductive RegisterCall
  | deviceId (path : Str)
  | ensureIdentity (deviceId path : Str)
  | readFile (path : Str)
  | postCode (url tenantSlug csrPem : Str)
  | postToken (url deviceCode : Str)
  | report (message : Str)
  | now
  | sleep (secs : ℕ)
  /-- The new contents of a file, that only the user can read if the flag is set. -/
  | writeFile (secret : Bool) (path contents : Str)

/-- What a call returns. -/
abbrev RegisterCall.Result : RegisterCall → Type
  | deviceId _ => Str
  | ensureIdentity _ _ => HubIdentity
  | readFile _ => List UInt8
  | postCode _ _ _ | postToken _ _ => Hub.Rendered
  | now => ℕ
  | report _ | sleep _ | writeFile _ _ _ => Unit

/-- The reply to a call.  The clock, a pause and a report never fail. -/
abbrev RegisterCall.Reply (c : RegisterCall) : Type := Except Str c.Result

/-- A program of the client. -/
abbrev Registration (α : Type) := Script RegisterCall.Reply Str α

/-- A call, and what is put before its error. -/
def callOr (context : Str → Str) (c : RegisterCall) : Registration c.Result :=
  ExceptT.mk (Program.perform c >>= fun r => Program.pure (r.mapError context))

/-- A call. -/
def call (c : RegisterCall) : Registration c.Result := callOr id c

/-- `write_public_file`. -/
def writePublicFile (path contents : Str) : Registration Unit := call (.writeFile false path contents)

/-- `write_private_file`. -/
def writePrivateFile (path contents : Str) : Registration Unit := call (.writeFile true path contents)

/-- A value that may be an error, and what is put before the error. -/
def valueOr {α : Type} (context : Str → Str) (value : Except Str α) : Registration α :=
  ExceptT.mk (Program.pure (value.mapError context))

/-! ### Options and responses -/

/-- `HubRegisterOptions`. -/
structure HubRegisterOptions where
  /-- The store. -/
  path : Str
  /-- The URL of the hub, without a slash at its end. -/
  hubUrl : Str
  /-- The tenant. -/
  tenantSlug : Str
  /-- The file with the certificate of the hub. -/
  caCertPath : Str

/-- `HubRegisterSummary`. -/
structure HubRegisterSummary where
  /-- The tenant. -/
  tenantSlug : Str
  /-- The device. -/
  deviceId : ℕ
  deriving DecidableEq

/-- `TokenResponse`: what the client reads from a response to a poll. -/
structure TokenResponse where
  /-- The status. -/
  status : Option Str := none
  /-- The tenant. -/
  tenantSlug : Option Str := none
  /-- The device. -/
  deviceId : Option ℕ := none
  /-- The certificate of the device. -/
  certificatePem : Option Str := none
  /-- The certificate of the hub. -/
  caCertPem : Option Str := none
  /-- The error. -/
  error : Option Str := none
  deriving DecidableEq

/-- What the libraries of the client say. -/
structure RegisterTexts where
  /-- Why a file is not a certificate, if it is not. -/
  certificateFromPem : List UInt8 → Except Str Unit
  /-- The body as text. -/
  bodyText : Hub.Body → Str
  /-- The status as text. -/
  statusText : ℕ → Str
  /-- Why a body cannot be read. -/
  unreadable : Hub.Body → Str

section Command

variable (T : RegisterTexts)

/-- What the client reads from the response to a poll of an approved grant. -/
def TokenResponse.ofToken (t : Hub.TokenSuccessResponse) : TokenResponse where
  status := some t.status
  tenantSlug := some t.tenantSlug
  deviceId := some t.deviceId
  certificatePem := some t.certificatePem
  caCertPem := some t.caCertPem

/-- The response to a poll, or why it is not one.  Members that the client does not know are passed
over, and those that are not there are `None`. -/
def TokenResponse.read : Hub.Body → Except Str TokenResponse
  | .error e => .ok { error := some e }
  | .token t => .ok (.ofToken t)
  | .deviceCode _ => .ok {}
  | body => .error (T.unreadable body)

/-- The response to a request for a grant, or why it is not one. -/
def readDeviceCode : Hub.Body → Except Str Hub.DeviceCodeResponse
  | .deviceCode r => .ok r
  | body => .error (T.unreadable body)

/-! ### The command -/

/-- A `Duration`, in nanoseconds. -/
def fromSecs (n : ℕ) : ℕ := n * 1000000000

variable (opts : HubRegisterOptions) (identity : HubIdentity)

/-- A value that the hub may have left out. -/
def sent {α : Type} (what : String) (value : Option α) : Registration α :=
  match value with
  | some a => pure a
  | none => throw ("hub approved the grant but sent no ".toList ++ what.toList)

/-- The end of `run_hub_register`: the grant is approved. -/
def storeToken (token : TokenResponse) : Registration HubRegisterSummary := do
  let certificatePem ← sent "certificate_pem" token.certificatePem
  writePublicFile (Path.joinStr opts.path deviceCertFile) certificatePem
  match token.caCertPem with
  | none => pure ()
  | some caCertPem => writePublicFile (Path.joinStr opts.path caCertFile) caCertPem
  let pkcs8Pem ← valueOr id identity.pkcs8Pem
  writePrivateFile (Path.joinStr opts.path deviceKeyPemFile) pkcs8Pem
  let tenantSlug ← sent "tenant_slug" token.tenantSlug
  let deviceId ← sent "device_id" token.deviceId
  return ⟨tenantSlug, deviceId⟩

/-- What the loop does with the response to a poll: the summary once the grant is approved, nothing
while it is pending. -/
def takeToken (token : TokenResponse) : Registration (Option HubRegisterSummary) :=
  match token.error with
  | some e =>
    if e = "authorization_pending".toList then return none
    else throw ("hub reported an error: ".toList ++ e)
  | none => do
    if token.status = some "approved".toList then
      let summary ← storeToken opts identity token
      return some summary
    else throw "unexpected response from hub while polling".toList

/-- One poll. -/
def pollOnce (deviceCode : Str) : Registration (Option HubRegisterSummary) := do
  let tokenUrl := opts.hubUrl ++ "/device/token".toList
  let response ← callOr (fun e => "polling ".toList ++ tokenUrl ++ ": ".toList ++ e)
    (.postToken tokenUrl deviceCode)
  let token ← valueOr (fun e => "parsing token response: ".toList ++ e)
    (TokenResponse.read T response.body)
  takeToken opts identity token

/-- The loop of `run_hub_register`, for a number of polls at most: the summary, or nothing if there are
polls to make. -/
def pollToken (deviceCode : Str) (interval deadline : ℕ) :
    ℕ → Registration (Option HubRegisterSummary)
  | 0 => return none
  | polls + 1 => do
    let now ← call .now
    if deadline ≤ now then throw "device code expired before it was approved".toList
    else
      call (.sleep interval)
      let answer ← pollOnce T opts identity deviceCode
      match answer with
      | some summary => return some summary
      | none => pollToken deviceCode interval deadline polls

/-- The request for a grant. -/
def requestCode (csrPem : Str) : Registration Hub.DeviceCodeResponse := do
  let codeUrl := opts.hubUrl ++ "/device/code".toList
  let response ← callOr
    (fun e => "requesting a device code from ".toList ++ codeUrl ++ ": ".toList ++ e)
    (.postCode codeUrl opts.tenantSlug csrPem)
  if response.status ≠ 200 then
    throw ("hub refused the device-code request (".toList ++ T.statusText response.status ++
      "): ".toList ++ T.bodyText response.body)
  else
    valueOr (fun e => "parsing device-code response: ".toList ++ e) (readDeviceCode T response.body)

/-- Where a human types the code. -/
def verificationUrl (code : Hub.DeviceCodeResponse) : Str :=
  if "http".toList.isPrefixOf code.verificationUri then code.verificationUri
  else opts.hubUrl ++ code.verificationUri

/-- `run_hub_register` from the response on that has the codes. -/
def awaitApproval (code : Hub.DeviceCodeResponse) (polls : ℕ) :
    Registration (Option HubRegisterSummary) := do
  call (.report ("visit ".toList ++ verificationUrl opts code ++ " and enter code: ".toList ++
    code.userCode))
  call (.report "waiting for approval...".toList)
  let now ← call .now
  pollToken T opts identity code.deviceCode code.interval (now + fromSecs code.expiresIn) polls

/-- `run_hub_register`, for a number of polls at most. -/
def runHubRegister (polls : ℕ) : Registration (Option HubRegisterSummary) := do
  let deviceId ← call (.deviceId (Path.joinStr opts.path deviceIdFile))
  let identity ← call (.ensureIdentity deviceId (Path.joinStr opts.path signingIdentityFallback))
  let csrPem ← valueOr id identity.csrPem
  let pem ← callOr (fun e => "reading --ca-cert ".toList ++ opts.caCertPath ++ ": ".toList ++ e)
    (.readFile opts.caCertPath)
  valueOr (fun e => opts.caCertPath ++ " is not a valid PEM certificate: ".toList ++ e)
    (T.certificateFromPem pem)
  let code ← requestCode T opts csrPem
  awaitApproval T opts identity code polls

end Command

end Cli

end Wkp
