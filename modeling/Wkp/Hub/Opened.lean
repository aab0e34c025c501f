import Wkp.Hub.Enrolled
import Wkp.Hub.Isolated

/-!
# What a certificate opens

The certificates of enrolled devices at the front door, at any later time.

* `Hub.SerialsDistinct` : no serial number is used for two keys.
* `Hub.Opens` : requests with the certificate are relayed; `Hub.opens_iff_authorized`.
* `Hub.opens_iff` : **a certificate opens the tenant that its device was enrolled for while it is on file
  and the device is not revoked, and it never opens another tenant.**
* `Hub.revoked_opens_nothing` : **no certificate for the key of a revoked device opens anything again.**
-/

namespace Wkp

open Rust

namespace Hub

variable {C : Crypto}

/-- The certificate that the hub signed. -/
def HubEvent.signed : HubEvent → Option SignedDeviceCert
  | .handler (.call _ ⟨.signDeviceCsr _, .ok signed⟩) => some signed
  | _ => none

/-- No serial number is used for two keys. -/
def SerialsDistinct (ls : List HubEvent) : Prop :=
  ∀ signed ∈ ls.filterMap HubEvent.signed, ∀ signed' ∈ ls.filterMap HubEvent.signed,
    signed.serialHex = signed'.serialHex → signed.publicKeyRaw = signed'.publicKeyRaw

instance : DecidablePred SerialsDistinct := fun ls => by
  unfold SerialsDistinct
  infer_instance

theorem SignedFor.key_unique {ls : List HubEvent} (hls : SerialsDistinct ls)
    {pem pem' serial key key' : Str} (h : SignedFor C ls pem serial key)
    (h' : SignedFor C ls pem' serial key') : key = key' := by
  obtain ⟨i, csrPem, signed, hmem, -, hserial, -, -, hkey⟩ := h
  obtain ⟨j, csrPem', signed', hmem', -, hserial', -, -, hkey'⟩ := h'
  have hraw := hls signed (List.mem_filterMap.2 ⟨_, hmem, rfl⟩) signed'
    (List.mem_filterMap.2 ⟨_, hmem', rfl⟩) (hserial.trans hserial'.symm)
  rw [hraw, hkey'] at hkey
  exact (Except.ok.inj hkey).symm

/-- A device whose certificate is on file under a serial number of a key has the key. -/
theorem Enrolling.key_of_serial {ls : List HubEvent} {pool : Pool Stage World}
    (h : Enrolling C ls pool) (hls : SerialsDistinct ls) {device : Device}
    (hdevice : device ∈ pool.state.db.devices) {pem serial key : Str}
    (hserial : device.certSerial = some serial) (hsigned : SignedFor C ls pem serial key) :
    device.publicKey = key := by
  rcases h.attributed.filed device hdevice with ⟨-, hnone⟩ | ⟨pem', serial', -, hserial', hsigned'⟩
  · rw [hnone] at hserial
    cases hserial
  · rw [hserial] at hserial'
    obtain rfl := Option.some.inj hserial'
    exact hsigned'.key_unique hls hsigned

/-- A request to a repository reaches a pod only if the certificate opens the tenant of its route. -/
def OnlyOpens (C : Crypto) (w : World) (serial : Str) (opens : Str → Prop) : Prop :=
  ∀ (F : FrontDoor) request method route der es p w', F.certSerialHex der = some serial →
    Trace.Run (Program.Step (Exec C)) (handleGitHttp { F with orchestrator := callOrchestrator }
      request method route (some der), w) es (p, w') →
    ∀ e ∈ es, ReachesPod e.1 → ReachesTenant route e.1 ∧ opens route.tenantSlug

theorem onlyOpens_of_authorized {w : World} {serial : Str} {opens : Str → Prop}
    (h : ∀ slug, Authorized w.db serial slug → opens slug) : OnlyOpens C w serial opens := by
  intro F request method route der es p w' hserial run e he hpod
  obtain ⟨hreaches, hauthorized⟩ :=
    (checked_handleGitHttp (F := { F with orchestrator := callOrchestrator }) rfl request method
      hserial).run run e he hpod
  exact ⟨hreaches, h _ hauthorized⟩

/-- The calls of the front door. -/
def IsFrontDoorCall : Call → Prop
  | .connect | .sql _ | .startPod _ _ _ | .proxy _ => True
  | _ => False

theorem calls_proxyAttempts (request : ProxyRequest) (attempts : ℕ) :
    (proxyAttempts request attempts).Calls IsFrontDoorCall := by
  induction attempts with
  | zero => trivial
  | succ attempts ih =>
    refine ⟨trivial, fun r => ?_⟩
    cases r with
    | ok response => trivial
    | error e => exact ih

theorem calls_relayGitHttp (request : Incoming) (method : Str) (route : GitHttpRoute) :
    (relayGitHttp request method route).Calls IsFrontDoorCall := by
  unfold relayGitHttp proxyToTenantPod
  split_ifs
  · exact calls_proxyAttempts _ 10
  · exact calls_proxyAttempts _ 10
  · trivial

section Calls

variable {F : FrontDoor} (hF : F.orchestrator = callOrchestrator) (request : Incoming) (method : Str)
  (route : GitHttpRoute)

include hF

theorem calls_serveTenant (tenant : Tenant) :
    (serveTenant F request method route tenant).Calls IsFrontDoorCall := by
  refine ⟨trivial, fun r => ?_⟩
  simp only [Program.pure_bind]
  split_ifs
  · exact calls_relayGitHttp request method route
  · unfold coldStart
    rw [hF]
    refine ⟨trivial, fun r => ?_⟩
    cases r with
    | error e => trivial
    | ok => exact ⟨trivial, fun _ => calls_relayGitHttp request method route⟩

theorem calls_handleGitHttp (peerCert : Option (List UInt8)) :
    (handleGitHttp F request method route peerCert).Calls IsFrontDoorCall := by
  unfold handleGitHttp
  split_ifs
  · trivial
  · split
    · trivial
    · split
      · trivial
      · refine ⟨trivial, fun r => ?_⟩
        rcases r with e | ⟨⟩
        · trivial
        refine ⟨trivial, fun r => ?_⟩
        rcases r with e | _ | device
        · trivial
        · trivial
        simp only [Program.pure_bind]
        split_ifs
        · trivial
        refine ⟨trivial, fun r => ?_⟩
        rcases r with e | _ | tenant
        · trivial
        · trivial
        simp only [Program.pure_bind]
        split_ifs
        · trivial
        · exact calls_serveTenant hF request method route tenant

end Calls

theorem exists_answers (w : World) {c : Call} (h : IsFrontDoorCall c) :
    ∃ r w', Answers C w ⟨c, r⟩ w' := by
  cases c with
  | connect => exact ⟨_, _, .connect w⟩
  | sql q => exact ⟨_, _, .sql w q⟩
  | startPod image reposRoot slug => exact ⟨_, _, .startPod w image reposRoot slug w.pods⟩
  | proxy request => exact ⟨_, _, .proxy w request ⟨200, [], []⟩⟩
  | _ => exact h.elim

/-- The front door accepts the certificate for the tenant: where no call fails, a request to a repository
of the tenant gets the answer of its pod. -/
def Opens (C : Crypto) (w : World) (serial slug : Str) : Prop :=
  ∀ (F : FrontDoor) request method route der es response w', F.certSerialHex der = some serial →
    method = "GET".toList ∨ method = "POST".toList → route.tenantSlug = slug →
    Program.Returns (Answers C) (handleGitHttp { F with orchestrator := callOrchestrator } request
      method route (some der)) w es response w' → Relayed route method es response

/-- A front door that reads the serial number from every certificate. -/
def readingDoor (serial : Str) : FrontDoor := ⟨callOrchestrator, fun _ => some serial, [], []⟩

/-- **The front door accepts a certificate exactly where its device is authorised.** -/
theorem opens_iff_authorized {w : World} (hwf : w.db.WellFormed) {serial slug : Str} :
    Opens C w serial slug ↔ Authorized w.db serial slug := by
  constructor
  · intro hopens
    have hcalls := calls_handleGitHttp (F := readingDoor serial) rfl ⟨[], []⟩ "GET".toList
      ⟨slug, [], []⟩ (some [])
    obtain ⟨response, w', es, h⟩ := hcalls.exists_returns (fun w _ => exists_answers (C := C) w) w
    obtain ⟨contentType, body, answer, hmem, -⟩ := hopens (readingDoor serial) ⟨[], []⟩ "GET".toList
      ⟨slug, [], []⟩ [] es response w' rfl (.inl rfl) rfl h
    -- the pod was reached, so the checks were passed
    have hchecked : Careful serial ⟨slug, [], []⟩ []
        (handleGitHttp (readingDoor serial) ⟨[], []⟩ "GET".toList ⟨slug, [], []⟩ (some [])) :=
      checked_handleGitHttp rfl ⟨[], []⟩ "GET".toList rfl
    exact (hchecked.run (h.mono fun _ _ _ => .answers) _ hmem trivial).2
  · rintro hauthorized F request method route der es response w' hserial hmethod rfl h
    exact relayed_handleGitHttp (F := { F with orchestrator := callOrchestrator }) rfl hserial hmethod
      hwf hauthorized h

/-- The certificate of the device is on file under the serial number, and the device is not revoked. -/
def Db.Admits (db : Db) (deviceId : ℕ) (serial : Str) : Prop :=
  ∃ device ∈ db.devices, device.id = deviceId ∧ device.certSerial = some serial ∧
    device.revokedAt = none

theorem Enrolled.authorized_iff {ls : List HubEvent} {pool : Pool Stage World}
    (h : Enrolling C ls pool) (hls : SerialsDistinct ls) {deviceCode : Str}
    {token : TokenSuccessResponse} (he : Enrolled C ls pool.state.db deviceCode token) {serial : Str}
    (hserial : C.certSerialHex token.certificatePem = some serial) {slug : Str} :
    Authorized pool.state.db serial slug ↔
      slug = token.tenantSlug ∧ pool.state.db.Admits token.deviceId serial := by
  have hwf := h.approving.wellFormed
  obtain ⟨grant, hgrant, tenant, htenant, device, hdevice, he⟩ := he
  obtain ⟨serial', hsigned⟩ := he.signed
  obtain rfl : serial' = serial := by
    obtain ⟨-, -, -, -, -, -, hhex, -⟩ := hsigned
    exact Option.some.inj (hhex.symm.trans hserial)
  constructor
  · rintro ⟨d, hd, hdserial, hrevoked, t, ht, rfl, hmember⟩
    obtain rfl := hwf.publicKey.eq_of_key_eq hd hdevice (h.key_of_serial hls hd hdserial hsigned)
    obtain rfl := hwf.tenantId.eq_of_key_eq ht htenant (hmember.symm.trans he.member)
    exact ⟨he.slug_eq, d, hd, he.deviceId_eq, hdserial, hrevoked⟩
  · rintro ⟨rfl, d, hd, hid, hdserial, hrevoked⟩
    obtain rfl := hwf.deviceId.eq_of_key_eq hd hdevice (hid.trans he.deviceId_eq.symm)
    exact ⟨d, hd, hdserial, hrevoked, tenant, htenant, he.slug_eq, he.member⟩

/-- **No certificate for the key of a revoked device opens anything again**, whenever it was signed. -/
theorem revoked_opens_nothing {w₀ : World} (hdb : w₀.db = {}) {ls₁ ls₂ : List HubEvent}
    {pool₁ pool₂ : Pool (Handler Rendered) World} (run₁ : HubRun C ⟨fun _ => none, w₀⟩ ls₁ pool₁)
    {device : Device} (hdevice : device ∈ pool₁.state.db.devices)
    (hrevoked : device.revokedAt.isSome = true) (run₂ : HubRun C pool₁ ls₂ pool₂)
    (hserials : SerialsDistinct (ls₁ ++ ls₂)) {certificatePem serial : Str}
    (hsigned : SignedFor C (ls₁ ++ ls₂) certificatePem serial device.publicKey) :
    (∀ slug, ¬ Authorized pool₂.state.db serial slug) ∧
      OnlyOpens C pool₂.state serial fun _ => False := by
  obtain ⟨P₁, rfl, run₁'⟩ := HubRun.exists_stageRun (P := ⟨fun _ => none, w₀⟩) run₁
  obtain ⟨P₂, rfl, run₂'⟩ := run₂.exists_stageRun
  have h₁ := ((Enrolling.init (C := C) hdb).run run₁').1
  obtain ⟨h₂, hgrows⟩ := h₁.run run₂'
  rw [List.nil_append] at h₂
  have hnot : ∀ slug, ¬ Authorized P₂.state.db serial slug := by
    rintro slug ⟨d, hd, hserial, hnone, -⟩
    obtain ⟨row, hrow, hstays⟩ := hgrows.devices device hdevice
    -- the device that the certificate names has the key of the revoked one, so it is the same
    have hkey := h₂.key_of_serial hserials hd hserial hsigned
    obtain rfl := h₂.approving.wellFormed.publicKey.eq_of_key_eq hd hrow
      (hkey.trans hstays.publicKey_eq.symm)
    have hsome := hstays.revoked hrevoked
    rw [hnone] at hsome
    cases hsome
  exact ⟨hnot, onlyOpens_of_authorized fun slug => hnot slug⟩

/-! ### A device that is revoked -/

/-- The operator revokes the device. -/
theorem revoked_opens_nothing_example : ∃ ls pool, HubRun exampleCrypto ⟨fun _ => none, {}⟩ ls pool ∧
    (∀ slug, ¬ Authorized pool.state.db "01".toList slug) ∧
      OnlyOpens exampleCrypto pool.state "01".toList fun _ => False := by
  obtain ⟨threads, run₁, -⟩ := run_exampleEvents
  have run₂ := run₁.append (.single (.elsewhere _ (.revoke _ 1)))
  have hdevice : (⟨1, 1, "key".toList, 0, some 0, some "01".toList, some "01".toList, some 0,
      some 1⟩ : Device) ∈ (exampleApproved.db.revokeDevice exampleApproved.clock 1).2.devices := by
    decide
  have hsigned : SignedFor exampleCrypto (exampleEvents ++ [.elsewhere] ++ []) "01".toList
      "01".toList "key".toList :=
    ⟨1, "key".toList, ⟨"01".toList, "01".toList, "key".toList, 0, 1⟩,
      List.mem_of_getElem? (i := 10) rfl, rfl, rfl, rfl, rfl, rfl⟩
  exact ⟨_, _, run₂,
    revoked_opens_nothing rfl run₂ hdevice rfl (.nil _) (by decide) hsigned⟩

end Hub

end Wkp
