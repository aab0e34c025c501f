import Wkp.Hub.Polled

/-!
# A user code that is submitted again

* `Hub.Retried` : the grant has exactly one device, and the device has its certificate.
* `Hub.returns_handleVerifySubmit` : what a submission without failures does.
* `Hub.retried_iff` : **after a submission that stopped or failed anywhere, a second one succeeds if
  and only if the grant is approved, or no device has its key.**
-/

namespace Wkp

open Rust

namespace Hub

variable {C : Crypto}

/-- The grant has exactly one device, and the device has its certificate. -/
def Retried (db : Db) (grant : DeviceGrant) (publicKey : Str) (response : Rendered) : Prop :=
  response = .approved ∧ ∃ device ∈ db.devices, device.publicKey = publicKey ∧
    (∀ d ∈ db.devices, d.publicKey = publicKey → d = device) ∧
    device.certificatePem.isSome = true ∧
    ∃ row ∈ db.grants, row.id = grant.id ∧ row.approvedDeviceId = some device.id

theorem Retried.of_id_eq {db : Db} {grant grant' : DeviceGrant} {publicKey : Str}
    {response : Rendered} (h : Retried db grant publicKey response) (hid : grant'.id = grant.id) :
    Retried db grant' publicKey response := by
  unfold Retried
  rw [hid]
  exact h

/-- No device has the serial number of a certificate that is signed. -/
def FreshSerials (db : Db) (es : List (Program.Exchange Reply)) : Prop :=
  ∀ csrPem signed, (⟨.signDeviceCsr csrPem, .ok signed⟩ : Program.Exchange Reply) ∈ es →
    ∀ device ∈ db.devices, device.certSerial ≠ some signed.serialHex

theorem Answers.sign {w w' : World} {csrPem raw : Str} (hraw : C.csrPublicKey csrPem = some raw)
    {r : Except Str SignedDeviceCert} (h : Answers C w ⟨.signDeviceCsr csrPem, r⟩ w') :
    ∃ signed, r = .ok signed ∧ signed.publicKeyRaw = raw ∧ w' = w := by
  cases h with
  | signDeviceCsr hkey => exact ⟨_, rfl, Option.some.inj (hkey.symm.trans hraw), rfl⟩
  | signRejected e hnone =>
    rw [hnone] at hraw
    cases hraw

theorem returns_storeCertificate {w w' : World} {signed : SignedDeviceCert} {device : Device}
    {es : List (Program.Exchange Reply)} {response : Rendered} (hw : w.db.WellFormed)
    (hdevice : device ∈ w.db.devices)
    (hserial : ∀ d ∈ w.db.devices, d.certSerial ≠ some signed.serialHex) :
    Program.Returns (Answers C) (storeCertificate signed (.ok device)) w es response w' ↔
      es = [⟨.sql (.issueDeviceCertificate device.id signed.certificatePem signed.serialHex
        signed.notBefore signed.notAfter), .ok ()⟩] ∧ response = .approved ∧
      w' = { w with db := (w.db.issueDeviceCertificate device.id signed.certificatePem
        signed.serialHex signed.notBefore signed.notAfter).2 } := by
  have hfound : w.db.findDeviceById device.id = some device :=
    hw.findDeviceById.2 ⟨hdevice, rfl⟩
  -- no other device has the serial number, so the statement does not fail
  have hany : (w.db.devices.any fun d => d.id ≠ device.id ∧ d.certSerial = some signed.serialHex) =
      false := by
    rw [List.any_eq_false]
    intro d hd
    simp [hserial d hd]
  have hok : (w.db.issueDeviceCertificate device.id signed.certificatePem signed.serialHex
      signed.notBefore signed.notAfter).1 = .ok () := by
    unfold Db.issueDeviceCertificate
    rw [hfound, hany]
    rfl
  constructor
  · intro h
    obtain ⟨r, w₁, es₁, rfl, hissue, h₁⟩ := Program.returns_call.1 h
    obtain ⟨rfl, rfl⟩ := Answers.sql_iff.1 hissue
    dsimp only [Statement.run] at h₁ ⊢
    rw [hok] at h₁ ⊢
    obtain ⟨rfl, rfl, rfl⟩ := Program.returns_pure.1 h₁
    exact ⟨rfl, rfl, rfl⟩
  · rintro ⟨rfl, rfl, rfl⟩
    have hexec := Answers.sql (C := C) w (.issueDeviceCertificate device.id signed.certificatePem
      signed.serialHex signed.notBefore signed.notAfter)
    dsimp only [Statement.run] at hexec
    rw [hok] at hexec
    exact Program.returns_call.2 ⟨_, _, _, rfl, hexec, .nil _⟩

/-- What a submission without failures does with the device that it stores a certificate for. -/
theorem retried_issue {db : Db} (hdb : db.WellFormed) {grant : DeviceGrant} {device : Device}
    (hdevice : device ∈ db.devices)
    (hrow : ∃ row ∈ db.grants, row.id = grant.id ∧ row.approvedDeviceId = some device.id)
    {pem serial : Str} {issuedAt expiresAt : ℕ}
    (hserial : ∀ d ∈ db.devices, d.certSerial ≠ some serial) :
    Retried (db.issueDeviceCertificate device.id pem serial issuedAt expiresAt).2 grant
      device.publicKey .approved := by
  have hfound : db.findDeviceById device.id = some device :=
    hdb.findDeviceById.2 ⟨hdevice, rfl⟩
  have hany : (db.devices.any fun d => d.id ≠ device.id ∧ d.certSerial = some serial) = false := by
    rw [List.any_eq_false]
    intro d hd
    simp [hserial d hd]
  unfold Db.issueDeviceCertificate
  rw [hfound, hany]
  refine ⟨rfl, _, List.mem_map_of_mem hdevice, ?_, ?_, ?_, ?_⟩
  · rw [if_pos rfl]
  · intro d hd hkey
    obtain ⟨d₀, hd₀, rfl⟩ := List.mem_map.1 hd
    have hkey₀ : d₀.publicKey = device.publicKey := by
      rw [← hkey]
      split_ifs <;> rfl
    rw [hdb.publicKey.eq_of_key_eq hd₀ hdevice hkey₀]
  · rw [if_pos rfl]
    rfl
  · rw [if_pos rfl]
    exact hrow

theorem returns_signGrant {w w' : World} {grant : DeviceGrant} {es : List (Program.Exchange Reply)}
    {response : Rendered} {publicKey : Str} (hkey : KeyOf C grant.csrPem publicKey)
    (h : Program.Returns (Answers C) (signGrant C grant) w es response w') :
    ∃ signed es', es = ⟨.signDeviceCsr grant.csrPem, .ok signed⟩ :: es' ∧ Program.Returns (Answers C)
      (approveGrant grant publicKey >>= storeCertificate signed) w es' response w' := by
  obtain ⟨raw, hraw, hopenssh⟩ := hkey
  obtain ⟨r, w₁, es₁, rfl, hsign, h₁⟩ := Program.returns_call.1 h
  obtain ⟨signed, rfl, rfl, rfl⟩ := Answers.sign hraw hsign
  simp only [Program.pure_bind, approveSigned, hopenssh] at h₁
  exact ⟨signed, es₁, rfl, h₁⟩

/-- The key of the grant is registered, but not for the grant: the submission fails. -/
theorem returns_registered {w w' : World} {grant : DeviceGrant} {signed : SignedDeviceCert}
    {es : List (Program.Exchange Reply)} {response : Rendered} {publicKey : Str}
    (happroved : grant.approvedDeviceId = none)
    (hregistered : ∃ d ∈ w.db.devices, d.publicKey = publicKey)
    (h : Program.Returns (Answers C) (approveGrant grant publicKey >>= storeCertificate signed) w es
      response w') : response ≠ .approved := by
  unfold approveGrant at h
  rw [happroved] at h
  obtain ⟨r, w₁, es₁, rfl, hregister, h₁⟩ := Program.returns_call.1 h
  obtain ⟨rfl, rfl⟩ := Answers.sql_iff.1 hregister
  have hfound : (w.db.findDeviceByPublicKey publicKey).isSome = true := by
    obtain ⟨d, hd, hkey⟩ := hregistered
    unfold Db.findDeviceByPublicKey
    rw [List.find?_isSome]
    exact ⟨d, hd, by simpa using hkey⟩
  have herror : (w.db.registerDevice w.clock grant.tenantId publicKey).1 =
      .error (uniqueViolation "devices_public_key_key".toList) := by
    unfold Db.registerDevice
    exact congrArg Prod.fst (if_pos hfound)
  dsimp only [Statement.run] at h₁
  rw [herror] at h₁
  obtain ⟨-, rfl, -⟩ := Program.returns_pure.1 h₁
  exact fun heq => absurd (congrArg Rendered.status heq) (by decide)

/-- The device of the grant is recorded: its certificate is stored. -/
theorem returns_recorded {w w' : World} {grant row : DeviceGrant} {signed : SignedDeviceCert}
    {es : List (Program.Exchange Reply)} {response : Rendered} {device : Device}
    (hw : w.db.WellFormed) (hdevice : device ∈ w.db.devices) (hrow : row ∈ w.db.grants)
    (hid : row.id = grant.id) (happroved : row.approvedDeviceId = some device.id)
    (hserial : ∀ d ∈ w.db.devices, d.certSerial ≠ some signed.serialHex)
    (h : Program.Returns (Answers C) (approveGrant row device.publicKey >>= storeCertificate signed)
      w es response w') : Retried w'.db grant device.publicKey response := by
  unfold approveGrant at h
  rw [happroved] at h
  obtain ⟨r, w₁, es₁, rfl, hfind, h₁⟩ := Program.returns_call.1 h
  obtain ⟨rfl, rfl⟩ := Answers.sql_iff.1 hfind
  have hfound : w.db.findDeviceById device.id = some device :=
    hw.findDeviceById.2 ⟨hdevice, rfl⟩
  dsimp only [Statement.run] at h₁
  rw [hfound] at h₁
  obtain ⟨-, rfl, rfl⟩ := (returns_storeCertificate hw hdevice hserial).1 h₁
  exact retried_issue hw hdevice ⟨row, hrow, hid, happroved⟩ hserial

/-- No device has the key of the grant: it is registered and recorded, and its certificate is
stored. -/
theorem returns_unregistered {w w' : World} {grant : DeviceGrant} {signed : SignedDeviceCert}
    {es : List (Program.Exchange Reply)} {response : Rendered} {publicKey : Str}
    (hw : w.db.WellFormed) (hgrant : grant ∈ w.db.grants)
    (happroved : grant.approvedDeviceId = none)
    (hnone : ∀ d ∈ w.db.devices, d.publicKey ≠ publicKey)
    (hserial : ∀ d ∈ w.db.devices, d.certSerial ≠ some signed.serialHex)
    (h : Program.Returns (Answers C) (approveGrant grant publicKey >>= storeCertificate signed) w es
      response w') : Retried w'.db grant publicKey response := by
  unfold approveGrant at h
  rw [happroved] at h
  -- the registration goes through: the key is free, and the grant has a tenant
  obtain ⟨r, w₁, es₁, rfl, hregister, h₁⟩ := Program.returns_call.1 h
  obtain ⟨rfl, rfl⟩ := Answers.sql_iff.1 hregister
  have hfound : (w.db.findDeviceByPublicKey publicKey).isSome = false := by
    rw [Option.isSome_eq_false_iff, Option.isNone_iff_eq_none]
    exact Table.find?_eq_none_iff.2 hnone
  have htenant : (w.db.findTenantById grant.tenantId).isNone = false := by
    obtain ⟨t, ht, hid⟩ := hw.grantTenant grant hgrant
    rw [hw.findTenantById.2 ⟨ht, hid⟩]
    rfl
  have hrun : (w.db.registerDevice w.clock grant.tenantId publicKey).1 =
      .ok ⟨w.db.nextDeviceId, grant.tenantId, publicKey, w.clock, none, none, none, none, none⟩ := by
    unfold Db.registerDevice
    dsimp only
    rw [if_neg (by simpa [Db.findDeviceByPublicKey] using hfound),
      if_neg (by simpa [Db.findTenantById] using htenant)]
  dsimp only [Statement.run] at h₁
  rw [hrun, (Db.registerDevice_ok hrun).2.2] at h₁
  have hw₁ := hw.registerDevice w.clock grant.tenantId publicKey
  rw [(Db.registerDevice_ok hrun).2.2] at hw₁
  generalize hdevice : (⟨w.db.nextDeviceId, grant.tenantId, publicKey, w.clock, none, none, none,
    none, none⟩ : Device) = device at h₁ hw₁
  have hmem : device ∈ w.db.devices ++ [device] :=
    List.mem_append_right _ (List.mem_singleton_self device)
  have hserial₁ : ∀ d ∈ w.db.devices ++ [device], d.certSerial ≠ some signed.serialHex := by
    intro d hd
    rcases List.mem_append.1 hd with hd | hd
    · exact hserial d hd
    · rw [List.mem_singleton.1 hd, ← hdevice]
      intro heq
      cases heq
  have hkey : device.publicKey = publicKey := by rw [← hdevice]
  -- from here on the tables with the new device are just some tables
  generalize hdb : ({ w.db with
    devices := w.db.devices ++ [device]
    nextDeviceId := w.db.nextDeviceId + 1 } : Db) = db at h₁ hw₁
  have hdevices : db.devices = w.db.devices ++ [device] := by rw [← hdb]
  have hgrants : db.grants = w.db.grants := by rw [← hdb]
  rw [← hdevices] at hmem hserial₁
  have hrecorded : (db.recordApprovedDevice device.id grant.id).1 = .ok () := by
    have hdfound : db.findDeviceById device.id = some device :=
      hw₁.findDeviceById.2 ⟨hmem, rfl⟩
    unfold Db.recordApprovedDevice
    rw [hdfound]
    rfl
  have hw₂ := hw₁.recordApprovedDevice device.id grant.id
  -- the device is recorded for the grant, and then its certificate is stored
  obtain ⟨r, w₂, es₂, rfl, hrecord, h₂⟩ := Program.returns_call.1 h₁
  obtain ⟨rfl, rfl⟩ := Answers.sql_iff.1 hrecord
  dsimp only [Statement.run] at h₂
  rw [hrecorded, (Db.recordApprovedDevice_ok hrecorded).2] at h₂
  rw [(Db.recordApprovedDevice_ok hrecorded).2] at hw₂
  obtain ⟨-, rfl, rfl⟩ := (returns_storeCertificate hw₂ hmem hserial₁).1 h₂
  rw [← hkey]
  refine retried_issue hw₂ hmem ⟨_, List.mem_map_of_mem (hgrants ▸ hgrant), ?_, ?_⟩ hserial₁
  · rw [if_pos rfl]
  · rw [if_pos rfl]

theorem returns_handleVerifySubmit {w w' : World} {grant : DeviceGrant}
    {es : List (Program.Exchange Reply)} {response : Rendered} (hw : w.db.WellFormed)
    (hgrant : grant ∈ w.db.grants)
    (h : Program.Returns (Answers C) (handleVerifySubmit C (some grant.userCode)) w es response w') :
    ∃ now es', (⟨.now, now⟩ : Program.Exchange Reply) ∈ es ∧ (∀ e ∈ es', e ∈ es) ∧
      (grant.isExpired now = false → Program.Returns (Answers C)
        (match grant.approvedDeviceId with
          | none => signGrant C grant
          | some deviceId => checkIssued C grant deviceId) { w with clock := now } es' response
          w') := by
  obtain ⟨r, w₁, es₁, rfl, hconnect, h₁⟩ := Program.returns_call.1 h
  obtain ⟨rfl, rfl⟩ := Answers.connect_iff.1 hconnect
  obtain ⟨r, w₂, es₂, rfl, hfind, h₂⟩ := Program.returns_call.1 h₁
  obtain ⟨rfl, rfl⟩ := Answers.sql_iff.1 hfind
  have hfound : w₁.db.findGrantByUserCode grant.userCode = some grant :=
    hw.findGrantByUserCode.2 ⟨hgrant, rfl⟩
  dsimp only [Statement.run] at h₂
  rw [hfound] at h₂
  obtain ⟨now, w₃, es₃, rfl, hnow, h₃⟩ := Program.returns_call.1 h₂
  obtain ⟨hle, rfl⟩ := Answers.now_iff.1 hnow
  refine ⟨now, es₃, by simp, fun e he => by simp [he], fun hexpired => ?_⟩
  rw [Program.pure_bind, hexpired, if_neg Bool.false_ne_true] at h₃
  exact h₃

theorem returns_checkIssued {w w' : World} {grant : DeviceGrant} {device : Device}
    {es : List (Program.Exchange Reply)} {response : Rendered} (hw : w.db.WellFormed)
    (hgrant : grant ∈ w.db.grants) (hdevice : device ∈ w.db.devices)
    (happroved : grant.approvedDeviceId = some device.id)
    (hkey : KeyOf C grant.csrPem device.publicKey) (hfresh : FreshSerials w.db es)
    (h : Program.Returns (Answers C) (checkIssued C grant device.id) w es response w') :
    Retried w'.db grant device.publicKey response := by
  obtain ⟨r, w₁, es₁, rfl, hfind, h₁⟩ := Program.returns_call.1 h
  obtain ⟨rfl, rfl⟩ := Answers.sql_iff.1 hfind
  have hfound : w.db.findDeviceById device.id = some device :=
    hw.findDeviceById.2 ⟨hdevice, rfl⟩
  dsimp only [Statement.run] at h₁
  rw [hfound] at h₁
  simp only [Program.pure_bind] at h₁
  split_ifs at h₁ with hpem
  · obtain ⟨-, rfl, rfl⟩ := Program.returns_pure.1 h₁
    refine ⟨rfl, device, hdevice, rfl, ?_, hpem, grant, hgrant, rfl, happroved⟩
    intro d hd hdkey
    exact hw.publicKey.eq_of_key_eq hd hdevice hdkey
  · obtain ⟨signed, es₂, rfl, h₂⟩ := returns_signGrant hkey h₁
    exact returns_recorded hw hdevice hgrant rfl happroved
      (hfresh _ _ (List.mem_cons_of_mem _ List.mem_cons_self)) h₂

/-! ### Submissions come to an end -/

/-- A call of a submission. -/
def Submits : Call → Prop
  | .connect | .sql _ | .now | .signDeviceCsr _ => True
  | _ => False

variable (C) in
theorem Submits.exists_answer (w : World) (c : Call) (hc : Submits c) :
    ∃ r w', Answers C w ⟨c, r⟩ w' := by
  cases c with
  | connect => exact ⟨_, _, .connect w⟩
  | sql q => exact ⟨_, _, .sql w q⟩
  | now => exact ⟨_, _, .now le_rfl⟩
  | signDeviceCsr csrPem =>
    cases hraw : C.csrPublicKey csrPem with
    | none => exact ⟨_, _, .signRejected w [] hraw⟩
    | some raw =>
      obtain ⟨pem, hpem⟩ := C.certified
      obtain ⟨serial, hserial⟩ := Option.isSome_iff_exists.1 hpem
      exact ⟨_, _, @Answers.signDeviceCsr _ w _ ⟨pem, serial, raw, 0, 0⟩ hraw hserial⟩
  | _ => exact hc.elim

theorem calls_storeCertificate (signed : SignedDeviceCert) (approval : Except Error Device) :
    (storeCertificate signed approval).Calls Submits := by
  cases approval with
  | error => trivial
  | ok device =>
    refine ⟨trivial, fun r => ?_⟩
    rcases r with e | ⟨⟩ <;> trivial

theorem calls_registerGrant (grant : DeviceGrant) (publicKey : Str) :
    (registerGrant grant publicKey).Calls Submits := by
  refine ⟨trivial, fun r => ?_⟩
  rcases r with e | device
  · trivial
  · refine ⟨trivial, fun r => ?_⟩
    rcases r with e | ⟨⟩ <;> trivial

theorem calls_approveGrant (grant : DeviceGrant) (publicKey : Str) :
    (approveGrant grant publicKey).Calls Submits := by
  unfold approveGrant
  cases grant.approvedDeviceId with
  | none => exact calls_registerGrant grant publicKey
  | some deviceId =>
    refine ⟨trivial, fun r => ?_⟩
    rcases r with e | _ | device
    · trivial
    · exact calls_registerGrant grant publicKey
    · trivial

theorem calls_signGrant (grant : DeviceGrant) : (signGrant C grant).Calls Submits := by
  refine ⟨trivial, fun r => ?_⟩
  rcases r with e | signed
  · trivial
  · simp only [Program.pure_bind, approveSigned]
    cases C.opensshPublicKey signed.publicKeyRaw with
    | error => trivial
    | ok publicKey => exact (calls_approveGrant grant publicKey).bind (calls_storeCertificate signed)

theorem calls_verifyGrant (grant : DeviceGrant) : (verifyGrant C grant).Calls Submits := by
  refine ⟨trivial, fun now => ?_⟩
  simp only [Program.pure_bind]
  split_ifs
  · trivial
  · cases grant.approvedDeviceId with
    | none => exact calls_signGrant grant
    | some deviceId =>
      refine ⟨trivial, fun r => ?_⟩
      rcases r with e | _ | device
      · trivial
      · exact calls_signGrant grant
      · simp only [Program.pure_bind]
        split_ifs
        · trivial
        · exact calls_signGrant grant

theorem calls_handleVerifySubmit (userCode : Option Str) :
    (handleVerifySubmit C userCode).Calls Submits := by
  cases userCode with
  | none => trivial
  | some userCode =>
    refine ⟨trivial, fun r => ?_⟩
    rcases r with e | ⟨⟩
    · trivial
    · refine ⟨trivial, fun r => ?_⟩
      rcases r with e | _ | grant
      · trivial
      · trivial
      · exact calls_verifyGrant grant

/-! ### The second submission -/

/-- **After a submission that stopped or failed anywhere, a second one leaves the grant with one
device and its certificate if and only if the grant is approved, or no device has its key.** -/
theorem retried_iff {w₀ w : World} (hw₀ : w₀.db.WellFormed) (hlinked₀ : w₀.db.Linked C)
    {grant : DeviceGrant} (hgrant₀ : grant ∈ w₀.db.grants) {publicKey : Str}
    (hkey : KeyOf C grant.csrPem publicKey) {es : List (Program.Exchange Reply)}
    {p : Handler Rendered} (attempt : Trace.Run (Program.Step (Exec C))
      (handleVerifySubmit C (some grant.userCode), w₀) es (p, w)) :
    (∃ response w' es', Program.Returns (Answers C) (handleVerifySubmit C (some grant.userCode)) w
      es' response w') ∧
    ∀ response w' es', Program.Returns (Answers C) (handleVerifySubmit C (some grant.userCode)) w
      es' response w' →
      (∀ now, (⟨.now, now⟩ : Program.Exchange Reply) ∈ es' → grant.isExpired now = false) →
      FreshSerials w.db es' →
      (Retried w'.db grant publicKey response ↔
        (∃ row ∈ w.db.grants, row.id = grant.id ∧ row.approvedDeviceId.isSome = true) ∨
          ∀ device ∈ w.db.devices, device.publicKey ≠ publicKey) := by
  obtain ⟨hw, hlinked, hext⟩ := attempt_extends hw₀ hlinked₀ (.inr (.inr ⟨_, rfl⟩)) attempt
  refine ⟨(calls_handleVerifySubmit _).exists_returns (Submits.exists_answer C) w, ?_⟩
  intro response w' es' hreturns hunexpired hfresh
  -- the row of the grant as the attempt left it
  obtain ⟨row, hrow, hafter⟩ := hext.grants grant hgrant₀
  have hcsr : KeyOf C row.csrPem publicKey := by rwa [hafter.csrPem_eq]
  rw [← hafter.userCode_eq] at hreturns
  obtain ⟨now, es₁, hnow, hsub, hrest⟩ := returns_handleVerifySubmit hw hrow hreturns
  have hrest := hrest (by rw [hafter.isExpired_eq]; exact hunexpired now hnow)
  have hfresh₁ : FreshSerials w.db es₁ := fun csrPem signed h => hfresh csrPem signed (hsub _ h)
  have hrow_iff : (∃ row' ∈ w.db.grants, row'.id = grant.id ∧
      row'.approvedDeviceId.isSome = true) ↔ row.approvedDeviceId.isSome = true := by
    constructor
    · rintro ⟨row', hrow', hid, happroved⟩
      rwa [hw.grantId.eq_of_key_eq hrow hrow' (hafter.id_eq.trans hid.symm)]
    · intro happroved
      exact ⟨row, hrow, hafter.id_eq, happroved⟩
  rw [hrow_iff]
  cases happroved : row.approvedDeviceId with
  | some deviceId =>
    rw [happroved] at hrest
    obtain ⟨device, hdevice, rfl, hdkey⟩ := hlinked row hrow deviceId happroved
    obtain rfl := hcsr.unique hdkey
    have hretried := returns_checkIssued (w := { w with clock := now }) hw hrow hdevice happroved
      hdkey hfresh₁ hrest
    exact iff_of_true (hretried.of_id_eq hafter.id_eq.symm) (.inl rfl)
  | none =>
    rw [happroved] at hrest
    obtain ⟨signed, es₂, rfl, h₂⟩ := returns_signGrant hcsr hrest
    by_cases hregistered : ∃ d ∈ w.db.devices, d.publicKey = publicKey
    · refine iff_of_false (fun hretried => ?_) ?_
      · exact returns_registered (w := { w with clock := now }) happroved hregistered h₂ hretried.1
      · rintro (h | h)
        · cases h
        · obtain ⟨d, hd, hdkey⟩ := hregistered
          exact h d hd hdkey
    · have hnone : ∀ d ∈ w.db.devices, d.publicKey ≠ publicKey :=
        fun d hd hdkey => hregistered ⟨d, hd, hdkey⟩
      have hretried := returns_unregistered (w := { w with clock := now }) hw hrow happroved hnone
        (hfresh₁ _ _ List.mem_cons_self) h₂
      exact iff_of_true (hretried.of_id_eq hafter.id_eq.symm) (.inr hnone)

/-! ### A submission that stopped -/

/-- A device asks for a grant. -/
def exampleCode : List (Program.Exchange Reply) × Rendered × World :=
  (handleDeviceCode exampleCrypto (.ok ("acme".toList, "key".toList)) "dc".toList "uc".toList).eval
    (exampleAnswer []) exampleWorld

/-- The hub with the grant. -/
def exampleGranted : World := exampleCode.2.2

/-- The grant. -/
def exampleGrant : DeviceGrant := ⟨1, 1, "dc".toList, "uc".toList, "key".toList, 600, none⟩

theorem exampleGranted_db : exampleGranted.db =
    { exampleWorld.db with grants := [exampleGrant], nextGrantId := 2 } := by
  decide

theorem exampleGranted_wellFormed : exampleGranted.db.WellFormed := by
  rw [exampleGranted_db]
  constructor <;> simp [exampleWorld, exampleGrant, Table.Keyed]

theorem exampleGranted_linked : exampleGranted.db.Linked exampleCrypto := by
  rw [exampleGranted_db]
  intro grant hgrant deviceId happroved
  rw [List.mem_singleton.1 hgrant] at happroved
  cases happroved

/-- A submission of its user code. -/
def exampleSubmit : Handler Rendered := handleVerifySubmit exampleCrypto (some exampleGrant.userCode)

/-- The hub when the submission stopped after a number of calls. -/
def exampleStopped (n : ℕ) : World :=
  (Program.stop (exampleAnswer "01".toList) n exampleSubmit exampleGranted).2.2

/-- The submission, run again. -/
def exampleAgain (n : ℕ) : List (Program.Exchange Reply) × Rendered × World :=
  exampleSubmit.eval (exampleAnswer "02".toList) (exampleStopped n)

theorem run_exampleStopped (n : ℕ) : ∃ es p, Trace.Run (Program.Step (Exec exampleCrypto))
    (exampleSubmit, exampleGranted) es (p, exampleStopped n) :=
  ⟨_, _, Program.run_stop (exec_exampleAnswer "01".toList) n _ _⟩

theorem answers_exampleAnswer (serial : Str) (w : World) (c : Call) (hc : Submits c) :
    Answers exampleCrypto w ⟨c, (exampleAnswer serial w c).1⟩ (exampleAnswer serial w c).2 := by
  cases c with
  | connect => exact .connect w
  | sql q => exact .sql w q
  | now => exact .now le_rfl
  | signDeviceCsr csrPem => exact .signDeviceCsr w rfl rfl
  | _ => exact hc.elim

theorem returns_exampleAgain (n : ℕ) : Program.Returns (Answers exampleCrypto) exampleSubmit
    (exampleStopped n) (exampleAgain n).1 (exampleAgain n).2.1 (exampleAgain n).2.2 :=
  (calls_handleVerifySubmit _).returns_eval (answers_exampleAnswer "02".toList) _

/-- **A submission that stops before it records its device locks the key out.** -/
theorem not_retried :
    (∃ es p, Trace.Run (Program.Step (Exec exampleCrypto)) (exampleSubmit, exampleGranted) es
      (p, exampleStopped 5)) ∧
    Program.Returns (Answers exampleCrypto) exampleSubmit (exampleStopped 5) (exampleAgain 5).1
      (exampleAgain 5).2.1 (exampleAgain 5).2.2 ∧
    (∀ now, (⟨.now, now⟩ : Program.Exchange Reply) ∈ (exampleAgain 5).1 →
      exampleGrant.isExpired now = false) ∧
    FreshSerials (exampleStopped 5).db (exampleAgain 5).1 ∧
    ¬ Retried (exampleAgain 5).2.2.db exampleGrant "key".toList (exampleAgain 5).2.1 := by
  have hes : (exampleAgain 5).1 = [⟨.connect, .ok ()⟩,
      ⟨.sql (.findGrantByUserCode "uc".toList), .ok (some exampleGrant)⟩, ⟨.now, 0⟩,
      ⟨.signDeviceCsr "key".toList, .ok ⟨"02".toList, "02".toList, "key".toList, 0, 1⟩⟩,
      ⟨.sql (.registerDevice 1 "key".toList),
        .error (uniqueViolation "devices_public_key_key".toList)⟩] := rfl
  refine ⟨run_exampleStopped 5, returns_exampleAgain 5, ?_, ?_, ?_⟩
  · intro now hnow
    rw [hes] at hnow
    have hzero : now = 0 := by simpa using hnow
    rw [hzero]
    rfl
  · intro csrPem signed hsigned device hdevice
    have hnone : ∀ d ∈ (exampleStopped 5).db.devices, d.certSerial = none := by decide
    rw [hnone device hdevice]
    intro heq
    cases heq
  · intro hretried
    exact absurd (congrArg Rendered.status hretried.1) (by decide)

/-- A submission that stops before it stores the certificate is finished by the next one. -/
theorem retried_exampleStopped : Retried (exampleAgain 6).2.2.db exampleGrant "key".toList
    (exampleAgain 6).2.1 := by
  obtain ⟨es, p, attempt⟩ := run_exampleStopped 6
  have hes : (exampleAgain 6).1 = [⟨.connect, .ok ()⟩,
      ⟨.sql (.findGrantByUserCode "uc".toList),
        .ok (some { exampleGrant with approvedDeviceId := some 1 })⟩, ⟨.now, 0⟩,
      ⟨.sql (.findDeviceById 1),
        .ok (some ⟨1, 1, "key".toList, 0, none, none, none, none, none⟩)⟩,
      ⟨.signDeviceCsr "key".toList, .ok ⟨"02".toList, "02".toList, "key".toList, 0, 1⟩⟩,
      ⟨.sql (.findDeviceById 1),
        .ok (some ⟨1, 1, "key".toList, 0, none, none, none, none, none⟩)⟩,
      ⟨.sql (.issueDeviceCertificate 1 "02".toList "02".toList 0 1), .ok ()⟩] := rfl
  refine ((retried_iff exampleGranted_wellFormed exampleGranted_linked
    (by rw [exampleGranted_db]; exact List.mem_singleton_self _) ⟨_, rfl, rfl⟩ attempt).2 _ _ _
    (returns_exampleAgain 6) ?_ ?_).2 (.inl ?_)
  · intro now hnow
    rw [hes] at hnow
    have hzero : now = 0 := by simpa using hnow
    rw [hzero]
    rfl
  · intro csrPem signed hsigned device hdevice
    have hnone : ∀ d ∈ (exampleStopped 6).db.devices, d.certSerial = none := by decide
    rw [hnone device hdevice]
    intro heq
    cases heq
  · exact ⟨_, List.mem_singleton_self _, rfl, rfl⟩

end Hub

end Wkp
