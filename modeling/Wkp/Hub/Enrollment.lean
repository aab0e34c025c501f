import Wkp.Hub.Calls

/-!
# Enrollment of devices

* `Hub.handleDeviceCode` : a device asks for a grant.
* `Hub.handleVerifySubmit` : a human approves a grant; the hub signs the request of the device,
  registers it and stores its certificate.
* `Hub.handleDeviceToken` : the device polls for its certificate.
-/

namespace Wkp

open Rust

namespace Hub

/-! ### Responses -/

/-- `TokenSuccessResponse`. -/
structure TokenSuccessResponse where
  /-- The status, `approved`. -/
  status : Str
  /-- The slug of the tenant. -/
  tenantSlug : Str
  /-- The device. -/
  deviceId : ℕ
  /-- Its certificate. -/
  certificatePem : Str
  /-- The certificate of the root of the hub. -/
  caCertPem : Str
  deriving DecidableEq, Repr

/-- `DeviceCodeResponse`. -/
structure DeviceCodeResponse where
  /-- The code that the device polls with. -/
  deviceCode : Str
  /-- The code that a human types. -/
  userCode : Str
  /-- Where a human types it. -/
  verificationUri : Str
  /-- The seconds until the grant expires. -/
  expiresIn : ℕ
  /-- The seconds between two polls. -/
  interval : ℕ
  deriving DecidableEq, Repr

/-- The body of a response. -/
inductive Body
  | error (error : Str)
  | deviceCode (response : DeviceCodeResponse)
  | token (response : TokenSuccessResponse)
  | html (text : Str)
  | empty
  | relayed (contentType : Str) (extraHeaders : List (Str × Str)) (bytes : List UInt8)
  deriving DecidableEq, Repr

/-- `Rendered`, with the body before it is serialised.  The kind of body fixes the content type. -/
structure Rendered where
  /-- The status. -/
  status : ℕ
  /-- The body. -/
  body : Body
  deriving DecidableEq, Repr

namespace Rendered

/-- `Rendered::json` of an `ErrorBody`. -/
def jsonError (status : ℕ) (error : String) : Rendered := ⟨status, .error error.toList⟩

/-- The response to a failed statement. -/
def failed (e : Error) : Rendered := ⟨500, .error e.toStr⟩

/-- `Rendered::html`. -/
def html (status : ℕ) (text : String) : Rendered := ⟨status, .html text.toList⟩

/-- `html_escape`. -/
def htmlEscape (s : Str) : Str := s.flatMap fun c =>
  if c = '&' then "&amp;".toList
  else if c = '<' then "&lt;".toList
  else if c = '>' then "&gt;".toList
  else if c = '"' then "&quot;".toList
  else [c]

/-- A paragraph with the text of an error. -/
def htmlError (status : ℕ) (text : Str) : Rendered :=
  ⟨status, .html ("<p>".toList ++ htmlEscape text ++ "</p>".toList)⟩

/-- `Rendered::status_only`. -/
def statusOnly (status : ℕ) : Rendered := ⟨status, .empty⟩

/-- `expired_token`. -/
def expiredToken : Rendered := jsonError 400 "expired_token"

/-- `authorization_pending`. -/
def authorizationPending : Rendered := jsonError 400 "authorization_pending"

/-- `APPROVED_HTML`. -/
def approved : Rendered := html 200 ("<!doctype html><html><body><h1>Device approved</h1>" ++
  "<p>You can close this page and return to your device.</p></body></html>")

/-- The certificate of an approved device. -/
def certificate (C : Crypto) (tenant : Tenant) (deviceId : ℕ) (certificatePem : Str) : Rendered :=
  ⟨200, .token ⟨"approved".toList, tenant.slug, deviceId, certificatePem, C.rootCertPem⟩⟩

end Rendered

section Handlers

variable (C : Crypto)

/-! ### Grants -/

/-- `GRANT_TTL`, in seconds. -/
def grantTtl : ℕ := 10 * 60

/-- `POLL_INTERVAL_SECONDS`. -/
def pollIntervalSeconds : ℕ := 5

/-- The end of `create_device_grant`. -/
def insertGrant (tenantId : ℕ) (csrPem deviceCode userCode : Str) (expiresAt : ℕ) :
    Handler Rendered := do
  match ← sql (.createDeviceGrant tenantId csrPem deviceCode userCode expiresAt) with
  | .error e => pure (.failed e)
  | .ok grant => pure ⟨200, .deviceCode ⟨grant.deviceCode, grant.userCode, "/verify".toList,
      grantTtl, pollIntervalSeconds⟩⟩

/-- `create_device_grant`, with its random codes. -/
def createGrant (tenantId : ℕ) (csrPem deviceCode userCode : Str) : Handler Rendered := do
  let now ← nowUtc
  insertGrant tenantId csrPem deviceCode userCode (now + grantTtl)

/-- `handle_device_code` from the tenant on. -/
def grantForTenant (tenantSlug csrPem deviceCode userCode : Str) : Handler Rendered := do
  match ← sql (.findTenantBySlug tenantSlug) with
  | .error e => pure (.failed e)
  | .ok none => pure (.jsonError 404 "invalid_tenant")
  | .ok (some tenant) => createGrant tenant.id csrPem deviceCode userCode

/-- `handle_device_code` from the connection on. -/
def grantForCsr (tenantSlug csrPem deviceCode userCode : Str) : Handler Rendered := do
  match ← connect with
  | .error e => pure (.failed e)
  | .ok () => grantForTenant tenantSlug csrPem deviceCode userCode

/-- `handle_device_code`, with the random codes of the grant.  The body is the slug of the tenant and
the signing request, or why it is not. -/
def handleDeviceCode (body : Except Str (Str × Str)) (deviceCode userCode : Str) :
    Handler Rendered :=
  match body with
  | .error e => pure ⟨400, .error ("invalid request body: ".toList ++ e)⟩
  | .ok (tenantSlug, csrPem) =>
    if (C.csrPublicKey csrPem).isSome then grantForCsr tenantSlug csrPem deviceCode userCode
    else pure (.jsonError 400 "invalid_csr")

/-! ### Polls -/

/-- The end of `handle_device_token`: an approved device. -/
def relayCertificate (tenant : Tenant) (deviceId : ℕ) : Handler Rendered := do
  match ← sql (.findDeviceById deviceId) with
  | .error e => pure (.failed e)
  | .ok none => pure (.jsonError 500 "grant references a device that no longer exists")
  | .ok (some device) =>
    match device.certificatePem with
    | none => pure .authorizationPending
    | some certificatePem => pure (.certificate C tenant deviceId certificatePem)

/-- `handle_device_token` from the approved device on. -/
def relayApproved (grant : DeviceGrant) (deviceId : ℕ) : Handler Rendered := do
  match ← sql (.findTenantById grant.tenantId) with
  | .error e => pure (.failed e)
  | .ok none => pure (.jsonError 500 "grant references a tenant that no longer exists")
  | .ok (some tenant) => relayCertificate C tenant deviceId

/-- `handle_device_token` from the expiry on. -/
def relayGrant (grant : DeviceGrant) : Handler Rendered := do
  let now ← nowUtc
  if grant.isExpired now then pure .expiredToken
  else match grant.approvedDeviceId with
    | none => pure .authorizationPending
    | some deviceId => relayApproved C grant deviceId

/-- `handle_device_token` from the grant on. -/
def relayCode (deviceCode : Str) : Handler Rendered := do
  match ← sql (.findGrantByDeviceCode deviceCode) with
  | .error e => pure (.failed e)
  | .ok none => pure (.jsonError 400 "invalid_grant")
  | .ok (some grant) => relayGrant C grant

/-- `handle_device_token`.  The body is the device code of the request, or why it is not one. -/
def handleDeviceToken (body : Except Str Str) : Handler Rendered :=
  match body with
  | .error e => pure ⟨400, .error ("invalid request body: ".toList ++ e)⟩
  | .ok deviceCode => do
    match ← connect with
    | .error e => pure (.failed e)
    | .ok () => relayCode C deviceCode

/-! ### Approvals -/

/-- The end of `approve_grant`: the registered device is recorded. -/
def recordDevice (grant : DeviceGrant) (device : Device) : Handler (Except Error Device) := do
  match ← sql (.recordApprovedDevice device.id grant.id) with
  | .error e => pure (.error e)
  | .ok () => pure (.ok device)

/-- `approve_grant` where the device is not registered yet. -/
def registerGrant (grant : DeviceGrant) (publicKey : Str) : Handler (Except Error Device) := do
  match ← sql (.registerDevice grant.tenantId publicKey) with
  | .error e => pure (.error e)
  | .ok device => recordDevice grant device

/-- `approve_grant` where a device is recorded. -/
def refindDevice (grant : DeviceGrant) (publicKey : Str) (deviceId : ℕ) :
    Handler (Except Error Device) := do
  match ← sql (.findDeviceById deviceId) with
  | .error e => pure (.error e)
  | .ok (some device) => pure (.ok device)
  | .ok none => registerGrant grant publicKey

/-- `approve_grant`. -/
def approveGrant (grant : DeviceGrant) (publicKey : Str) : Handler (Except Error Device) :=
  match grant.approvedDeviceId with
  | none => registerGrant grant publicKey
  | some deviceId => refindDevice grant publicKey deviceId

/-- The end of `handle_verify_submit`: the certificate is stored. -/
def storeCertificate (signed : SignedDeviceCert) (approval : Except Error Device) :
    Handler Rendered :=
  match approval with
  | .error e => pure (.htmlError 500 e.toStr)
  | .ok device => do
    match ← sql (.issueDeviceCertificate device.id signed.certificatePem
        signed.serialHex signed.notBefore signed.notAfter) with
    | .error e => pure (.htmlError 500 e.toStr)
    | .ok () => pure .approved

/-- `handle_verify_submit` from the signed certificate on. -/
def approveSigned (grant : DeviceGrant) (signed : SignedDeviceCert) : Handler Rendered :=
  match C.opensshPublicKey signed.publicKeyRaw with
  | .error e => pure (.htmlError 500 e)
  | .ok publicKey => approveGrant grant publicKey >>= storeCertificate signed

/-- `handle_verify_submit` from the signature on. -/
def signGrant (grant : DeviceGrant) : Handler Rendered := do
  match ← signDeviceCsr grant.csrPem with
  | .error e => pure ⟨400, .html ("<p>could not sign this device's request: ".toList ++
      Rendered.htmlEscape e ++ "</p>".toList)⟩
  | .ok signed => approveSigned C grant signed

/-- `handle_verify_submit` from the check for an earlier certificate on. -/
def checkIssued (grant : DeviceGrant) (deviceId : ℕ) : Handler Rendered := do
  match ← sql (.findDeviceById deviceId) with
  | .error e => pure (.htmlError 500 e.toStr)
  | .ok (some device) =>
    if device.certificatePem.isSome then pure .approved else signGrant C grant
  | .ok none => signGrant C grant

/-- `handle_verify_submit` from the expiry on. -/
def verifyGrant (grant : DeviceGrant) : Handler Rendered := do
  let now ← nowUtc
  if grant.isExpired now then pure (.html 400 "<p>this code has expired</p>")
  else match grant.approvedDeviceId with
    | none => signGrant C grant
    | some deviceId => checkIssued C grant deviceId

/-- `handle_verify_submit` from the grant on. -/
def verifyCode (userCode : Str) : Handler Rendered := do
  match ← sql (.findGrantByUserCode userCode) with
  | .error e => pure (.htmlError 500 e.toStr)
  | .ok none => pure (.html 404 "<p>unknown or expired code</p>")
  | .ok (some grant) => verifyGrant C grant

/-- `handle_verify_submit`.  The code is what the form has for `user_code`, decoded. -/
def handleVerifySubmit (userCode : Option Str) : Handler Rendered :=
  match userCode with
  | none => pure (.html 400 "<p>missing user_code</p>")
  | some userCode => do
    match ← connect with
    | .error e => pure (.htmlError 500 e.toStr)
    | .ok () => verifyCode C userCode

end Handlers

end Hub

end Wkp
