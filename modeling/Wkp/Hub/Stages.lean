import Wkp.Hub.Enrollment

/-!
# The stages of the enrollment handlers

* `Hub.Stage` : where a handler is, between two calls.
* `Hub.Stage.program` : the rest of its program.
* `Hub.Stage.Next` : the transitions between the stages.
* `Hub.Stage.exists_next` : **the handlers make no other transitions.**
-/

namespace Wkp

open Rust

namespace Hub

/-! ### Calls that change no row -/

/-- The call changes no row, or it failed. -/
def Quiet (e : Program.Exchange Reply) : Prop :=
  ∀ q x, e = ⟨.sql q, .ok x⟩ → q.isQuery = true

theorem quiet_connect (r : Except Error Unit) : Quiet ⟨.connect, r⟩ := by
  intro q x h
  cases h

theorem quiet_now (t : ℕ) : Quiet ⟨.now, t⟩ := by
  intro q x h
  cases h

theorem quiet_sign (csrPem : Str) (r : Except Str SignedDeviceCert) :
    Quiet ⟨.signDeviceCsr csrPem, r⟩ := by
  intro q x h
  cases h

theorem quiet_error (q : Statement) (e : Error) : Quiet ⟨.sql q, .error e⟩ := by
  intro q' x h
  cases h

theorem quiet_query {q : Statement} (h : q.isQuery = true) (r : Except Error q.Result) :
    Quiet ⟨.sql q, r⟩ := by
  intro q' x heq
  obtain rfl : q = q' := Call.sql.inj (Sigma.mk.inj heq).1
  exact h

theorem Exec.sameRows {C : Crypto} {w w' : World} {e : Program.Exchange Reply} (h : Exec C w e w')
    (hquiet : Quiet e) : w.db.SameRows w'.db := by
  cases h with
  | fails => exact .refl _
  | answers h =>
    cases h with
    | sql q =>
      cases hr : (q.run w.clock w.db).1 with
      | error e => exact Statement.run_error hr
      | ok x =>
        have hq := hquiet q x (by rw [hr])
        dsimp only
        rw [Statement.run_of_isQuery hq]
        exact .refl _
    | podman h => cases h <;> exact .refl _
    | _ => exact .refl _

theorem Exec.sql_ok {C : Crypto} {w w' : World} {q : Statement} {x : q.Result}
    (h : Exec C w ⟨.sql q, .ok x⟩ w') :
    (q.run w.clock w.db).1 = .ok x ∧ w' = { w with db := (q.run w.clock w.db).2 } := by
  generalize he : (⟨.sql q, .ok x⟩ : Program.Exchange Reply) = e at h
  cases h with
  | fails hf =>
    cases hf with
    | sql q' e =>
      obtain ⟨hq, hr⟩ := Sigma.mk.inj he
      obtain rfl : q = q' := Call.sql.inj hq
      cases eq_of_heq hr
    | _ => cases he
  | answers h =>
    cases h with
    | sql q' =>
      obtain ⟨hq, hr⟩ := Sigma.mk.inj he
      obtain rfl : q = q' := Call.sql.inj hq
      exact ⟨(eq_of_heq hr).symm, rfl⟩
    | _ => cases he

theorem Exec.sql_cases {C : Crypto} {w w' : World} {q : Statement} {r : Except Error q.Result}
    (h : Exec C w ⟨.sql q, r⟩ w') : w' = w ∨ w' = { w with db := (q.run w.clock w.db).2 } := by
  generalize he : (⟨.sql q, r⟩ : Program.Exchange Reply) = e at h
  cases h with
  | fails => exact .inl rfl
  | answers h =>
    cases h with
    | sql q' =>
      obtain rfl : q = q' := Call.sql.inj (Sigma.mk.inj he).1
      exact .inr rfl
    | _ => cases he

theorem Exec.db_eq {C : Crypto} {w w' : World} {e : Program.Exchange Reply} (h : Exec C w e w')
    (hsql : ∀ q, e.1 ≠ .sql q) : w'.db = w.db := by
  cases h with
  | fails => rfl
  | answers h =>
    cases h with
    | sql q => exact absurd rfl (hsql q)
    | podman h => cases h <;> rfl
    | _ => rfl

theorem Exec.sign_ok {C : Crypto} {w w' : World} {csrPem : Str} {signed : SignedDeviceCert}
    (h : Exec C w ⟨.signDeviceCsr csrPem, .ok signed⟩ w') :
    C.csrPublicKey csrPem = some signed.publicKeyRaw ∧
      C.certSerialHex signed.certificatePem = some signed.serialHex ∧ w' = w := by
  cases h with
  | fails hf => cases hf
  | answers h =>
    cases h with
    | signDeviceCsr hkey hserial => exact ⟨hkey, hserial, rfl⟩

theorem Exec.wellFormed {C : Crypto} {w w' : World} {e : Program.Exchange Reply}
    (h : Exec C w e w') (hw : w.db.WellFormed) : w'.db.WellFormed := by
  cases h with
  | fails => exact hw
  | answers h =>
    cases h with
    | sql q => exact hw.run w.clock q
    | podman h => cases h <;> exact hw
    | _ => exact hw

/-- The response has a certificate. -/
def Rendered.IsToken (response : Rendered) : Prop := ∃ t, response.body = .token t

/-! ### Stages -/

/-- Where a handler is. -/
inductive Stage
  | codeConnect (tenantSlug csrPem deviceCode userCode : Str)
  | codeTenant (tenantSlug csrPem deviceCode userCode : Str)
  | codeNow (tenantId : ℕ) (csrPem deviceCode userCode : Str)
  | codeInsert (tenantId : ℕ) (csrPem deviceCode userCode : Str) (expiresAt : ℕ)
  | pollConnect (deviceCode : Str)
  | pollGrant (deviceCode : Str)
  | pollNow (grant : DeviceGrant)
  | pollTenant (grant : DeviceGrant) (deviceId : ℕ)
  | pollDevice (tenant : Tenant) (deviceId : ℕ)
  | verifyConnect (userCode : Str)
  | verifyGrant (userCode : Str)
  | verifyNow (grant : DeviceGrant)
  | check (grant : DeviceGrant) (deviceId : ℕ)
  | sign (grant : DeviceGrant)
  | refind (grant : DeviceGrant) (signed : SignedDeviceCert) (publicKey : Str) (deviceId : ℕ)
  | register (grant : DeviceGrant) (signed : SignedDeviceCert) (publicKey : Str)
  | record (grant : DeviceGrant) (signed : SignedDeviceCert) (device : Device)
  | issue (signed : SignedDeviceCert) (device : Device)
  | done (response : Rendered)

namespace Stage

variable (C : Crypto)

/-- The rest of the program of the handler. -/
def program : Stage → Handler Rendered
  | codeConnect tenantSlug csrPem deviceCode userCode =>
    grantForCsr tenantSlug csrPem deviceCode userCode
  | codeTenant tenantSlug csrPem deviceCode userCode =>
    grantForTenant tenantSlug csrPem deviceCode userCode
  | codeNow tenantId csrPem deviceCode userCode => createGrant tenantId csrPem deviceCode userCode
  | codeInsert tenantId csrPem deviceCode userCode expiresAt =>
    insertGrant tenantId csrPem deviceCode userCode expiresAt
  | pollConnect deviceCode => handleDeviceToken C (.ok deviceCode)
  | pollGrant deviceCode => relayCode C deviceCode
  | pollNow grant => relayGrant C grant
  | pollTenant grant deviceId => relayApproved C grant deviceId
  | pollDevice tenant deviceId => relayCertificate C tenant deviceId
  | verifyConnect userCode => handleVerifySubmit C (some userCode)
  | verifyGrant userCode => verifyCode C userCode
  | verifyNow grant => Hub.verifyGrant C grant
  | check grant deviceId => checkIssued C grant deviceId
  | sign grant => signGrant C grant
  | refind grant signed publicKey deviceId =>
    refindDevice grant publicKey deviceId >>= storeCertificate signed
  | register grant signed publicKey => registerGrant grant publicKey >>= storeCertificate signed
  | record grant signed device => recordDevice grant device >>= storeCertificate signed
  | issue signed device => storeCertificate signed (.ok device)
  | done response => pure response

/-- A transition of a handler. -/
inductive Next : Stage → Program.Exchange Reply → Stage → Prop
  | ends (stage : Stage) {e : Program.Exchange Reply} {response : Rendered} (hquiet : Quiet e)
      (h : ¬ response.IsToken) : Next stage e (done response)
  | codeConnected {tenantSlug csrPem deviceCode userCode : Str} :
      Next (codeConnect tenantSlug csrPem deviceCode userCode) ⟨.connect, .ok ()⟩
        (codeTenant tenantSlug csrPem deviceCode userCode)
  | codeFound {tenantSlug csrPem deviceCode userCode : Str} {tenant : Tenant} :
      Next (codeTenant tenantSlug csrPem deviceCode userCode)
        ⟨.sql (.findTenantBySlug tenantSlug), .ok (some tenant)⟩
        (codeNow tenant.id csrPem deviceCode userCode)
  | codeTimed {tenantId : ℕ} {csrPem deviceCode userCode : Str} {now : ℕ} :
      Next (codeNow tenantId csrPem deviceCode userCode) ⟨.now, now⟩
        (codeInsert tenantId csrPem deviceCode userCode (now + grantTtl))
  | codeInserted {tenantId : ℕ} {csrPem deviceCode userCode : Str} {expiresAt : ℕ}
      {grant : DeviceGrant} {response : Rendered} (h : ¬ response.IsToken) :
      Next (codeInsert tenantId csrPem deviceCode userCode expiresAt)
        ⟨.sql (.createDeviceGrant tenantId csrPem deviceCode userCode expiresAt), .ok grant⟩
        (done response)
  | pollConnected {deviceCode : Str} :
      Next (pollConnect deviceCode) ⟨.connect, .ok ()⟩ (pollGrant deviceCode)
  | pollFound {deviceCode : Str} {grant : DeviceGrant} :
      Next (pollGrant deviceCode) ⟨.sql (.findGrantByDeviceCode deviceCode), .ok (some grant)⟩
        (pollNow grant)
  | pollTimed {grant : DeviceGrant} {now deviceId : ℕ} (hnow : grant.isExpired now = false)
      (happroved : grant.approvedDeviceId = some deviceId) :
      Next (pollNow grant) ⟨.now, now⟩ (pollTenant grant deviceId)
  | pollTenantFound {grant : DeviceGrant} {deviceId : ℕ} {tenant : Tenant} :
      Next (pollTenant grant deviceId) ⟨.sql (.findTenantById grant.tenantId), .ok (some tenant)⟩
        (pollDevice tenant deviceId)
  | pollIssued {tenant : Tenant} {deviceId : ℕ} {device : Device} {certificatePem : Str}
      (h : device.certificatePem = some certificatePem) :
      Next (pollDevice tenant deviceId) ⟨.sql (.findDeviceById deviceId), .ok (some device)⟩
        (done (.certificate C tenant deviceId certificatePem))
  | verifyConnected {userCode : Str} :
      Next (verifyConnect userCode) ⟨.connect, .ok ()⟩ (verifyGrant userCode)
  | verifyFound {userCode : Str} {grant : DeviceGrant} :
      Next (verifyGrant userCode) ⟨.sql (.findGrantByUserCode userCode), .ok (some grant)⟩
        (verifyNow grant)
  | verifyTimed {grant : DeviceGrant} {now : ℕ} (hnow : grant.isExpired now = false)
      (happroved : grant.approvedDeviceId = none) : Next (verifyNow grant) ⟨.now, now⟩ (sign grant)
  | verifyTimedApproved {grant : DeviceGrant} {now deviceId : ℕ}
      (hnow : grant.isExpired now = false) (happroved : grant.approvedDeviceId = some deviceId) :
      Next (verifyNow grant) ⟨.now, now⟩ (check grant deviceId)
  | checked {grant : DeviceGrant} {deviceId : ℕ} {found : Option Device}
      (h : ∀ device, found = some device → device.certificatePem = none) :
      Next (check grant deviceId) ⟨.sql (.findDeviceById deviceId), .ok found⟩ (sign grant)
  | signed {grant : DeviceGrant} {cert : SignedDeviceCert} {publicKey : Str}
      (hkey : C.opensshPublicKey cert.publicKeyRaw = .ok publicKey)
      (happroved : grant.approvedDeviceId = none) :
      Next (sign grant) ⟨.signDeviceCsr grant.csrPem, .ok cert⟩ (register grant cert publicKey)
  | signedApproved {grant : DeviceGrant} {cert : SignedDeviceCert} {publicKey : Str} {deviceId : ℕ}
      (hkey : C.opensshPublicKey cert.publicKeyRaw = .ok publicKey)
      (happroved : grant.approvedDeviceId = some deviceId) :
      Next (sign grant) ⟨.signDeviceCsr grant.csrPem, .ok cert⟩
        (refind grant cert publicKey deviceId)
  | refound {grant : DeviceGrant} {cert : SignedDeviceCert} {publicKey : Str} {deviceId : ℕ}
      {device : Device} : Next (refind grant cert publicKey deviceId)
        ⟨.sql (.findDeviceById deviceId), .ok (some device)⟩ (issue cert device)
  | lost {grant : DeviceGrant} {cert : SignedDeviceCert} {publicKey : Str} {deviceId : ℕ} :
      Next (refind grant cert publicKey deviceId) ⟨.sql (.findDeviceById deviceId), .ok none⟩
        (register grant cert publicKey)
  | registered {grant : DeviceGrant} {cert : SignedDeviceCert} {publicKey : Str} {device : Device} :
      Next (register grant cert publicKey)
        ⟨.sql (.registerDevice grant.tenantId publicKey), .ok device⟩ (record grant cert device)
  | recorded {grant : DeviceGrant} {cert : SignedDeviceCert} {device : Device} :
      Next (record grant cert device) ⟨.sql (.recordApprovedDevice device.id grant.id), .ok ()⟩
        (issue cert device)
  | issued {cert : SignedDeviceCert} {device : Device} :
      Next (issue cert device)
        ⟨.sql (.issueDeviceCertificate device.id cert.certificatePem cert.serialHex cert.notBefore
          cert.notAfter), .ok ()⟩ (done .approved)

variable {C}

section

variable {stage : Stage} {e : Program.Exchange Reply} {p : Handler Rendered}

variable (C) in
/-- The program is that of a stage which the call leads to. -/
def Leads (stage : Stage) (e : Program.Exchange Reply) (p : Handler Rendered) : Prop :=
  ∃ stage', p = stage'.program C ∧ stage.Next C e stage'

/-- The program is done, with a response that has no certificate. -/
def Ends (p : Handler Rendered) : Prop :=
  ∃ status body, p = pure ⟨status, body⟩ ∧ ∀ t, body ≠ .token t

theorem ends_error (status : ℕ) (error : Str) : Ends (pure ⟨status, .error error⟩) :=
  ⟨status, _, rfl, fun _ => Body.noConfusion⟩

theorem ends_html (status : ℕ) (text : Str) : Ends (pure ⟨status, .html text⟩) :=
  ⟨status, _, rfl, fun _ => Body.noConfusion⟩

theorem Ends.leads (h : Ends p) (hquiet : Quiet e) : Leads C stage e p := by
  obtain ⟨status, body, rfl, hbody⟩ := h
  refine ⟨.done ⟨status, body⟩, rfl, .ends stage hquiet ?_⟩
  rintro ⟨t, ht⟩
  exact hbody t ht

theorem leads_connect {k : Reply .connect → Handler Rendered} (herror : ∀ e, Ends (k (.error e)))
    (hok : Leads C stage ⟨.connect, .ok ()⟩ (k (.ok ()))) (h : Program.Next (.call .connect k) e p) :
    Leads C stage e p := by
  obtain ⟨r, rfl, rfl⟩ := Program.next_call.1 h
  rcases r with e | ⟨⟩
  · exact (herror e).leads (quiet_connect _)
  · exact hok

theorem leads_sql {q : Statement} {k : Reply (.sql q) → Handler Rendered}
    (herror : ∀ e, Ends (k (.error e))) (hok : ∀ x, Leads C stage ⟨.sql q, .ok x⟩ (k (.ok x)))
    (h : Program.Next (.call (.sql q) k) e p) : Leads C stage e p := by
  obtain ⟨r, rfl, rfl⟩ := Program.next_call.1 h
  cases r with
  | error e => exact (herror e).leads (quiet_error q e)
  | ok x => exact hok x

theorem leads_pollNow {grant : DeviceGrant}
    (h : Program.Next ((pollNow grant).program C) e p) : Leads C (pollNow grant) e p := by
  obtain ⟨now, rfl, rfl⟩ := Program.next_call.1 h
  cases hnow : grant.isExpired now with
  | true =>
    simp only [Program.pure_bind, hnow, if_true]
    exact (ends_error ..).leads (quiet_now _)
  | false =>
    simp only [Program.pure_bind, hnow, Bool.false_eq_true, if_false]
    cases happroved : grant.approvedDeviceId with
    | none => exact (ends_error ..).leads (quiet_now _)
    | some deviceId => exact ⟨.pollTenant grant deviceId, rfl, .pollTimed hnow happroved⟩

theorem leads_pollDevice {tenant : Tenant} {deviceId : ℕ}
    (h : Program.Next ((pollDevice tenant deviceId).program C) e p) :
    Leads C (pollDevice tenant deviceId) e p := by
  refine leads_sql (fun _ => ends_error ..) (fun found => ?_) h
  cases found with
  | none => exact (ends_error ..).leads (quiet_query rfl _)
  | some device =>
    simp only [Program.pure_bind]
    cases hpem : device.certificatePem with
    | none => exact (ends_error ..).leads (quiet_query rfl _)
    | some certificatePem =>
      exact ⟨.done (.certificate C tenant deviceId certificatePem), rfl, .pollIssued hpem⟩

theorem leads_verifyNow {grant : DeviceGrant}
    (h : Program.Next ((verifyNow grant).program C) e p) : Leads C (verifyNow grant) e p := by
  obtain ⟨now, rfl, rfl⟩ := Program.next_call.1 h
  cases hnow : grant.isExpired now with
  | true =>
    simp only [Program.pure_bind, hnow, if_true]
    exact (ends_html ..).leads (quiet_now _)
  | false =>
    simp only [Program.pure_bind, hnow, Bool.false_eq_true, if_false]
    cases happroved : grant.approvedDeviceId with
    | none => exact ⟨.sign grant, rfl, .verifyTimed hnow happroved⟩
    | some deviceId => exact ⟨.check grant deviceId, rfl, .verifyTimedApproved hnow happroved⟩

theorem leads_check {grant : DeviceGrant} {deviceId : ℕ}
    (h : Program.Next ((check grant deviceId).program C) e p) :
    Leads C (check grant deviceId) e p := by
  refine leads_sql (fun _ => ends_html ..) (fun found => ?_) h
  cases found with
  | none => exact ⟨.sign grant, rfl, .checked (by simp)⟩
  | some device =>
    simp only [Program.pure_bind]
    cases hpem : device.certificatePem with
    | none => exact ⟨.sign grant, rfl, .checked (by simpa using hpem)⟩
    | some certificatePem => exact (ends_html ..).leads (quiet_query rfl _)

theorem leads_sign {grant : DeviceGrant} (h : Program.Next ((sign grant).program C) e p) :
    Leads C (sign grant) e p := by
  obtain ⟨r, rfl, rfl⟩ := Program.next_call.1 h
  cases r with
  | error e => exact (ends_html ..).leads (quiet_sign _ _)
  | ok signed =>
    simp only [Program.pure_bind]
    unfold approveSigned
    cases hkey : C.opensshPublicKey signed.publicKeyRaw with
    | error e => exact (ends_html ..).leads (quiet_sign _ _)
    | ok publicKey =>
      dsimp only
      unfold approveGrant
      cases happroved : grant.approvedDeviceId with
      | none => exact ⟨.register grant signed publicKey, rfl, .signed hkey happroved⟩
      | some deviceId =>
        exact ⟨.refind grant signed publicKey deviceId, rfl, .signedApproved hkey happroved⟩

end

/-- **The handlers make no other transitions.** -/
theorem exists_next {stage : Stage} {e : Program.Exchange Reply} {p : Handler Rendered}
    (h : Program.Next (stage.program C) e p) :
    ∃ stage', p = stage'.program C ∧ stage.Next C e stage' := by
  change Leads C stage e p
  cases stage with
  | codeConnect tenantSlug csrPem deviceCode userCode =>
    exact leads_connect (fun _ => ends_error ..)
      ⟨.codeTenant tenantSlug csrPem deviceCode userCode, rfl, .codeConnected⟩ h
  | codeTenant tenantSlug csrPem deviceCode userCode =>
    refine leads_sql (fun _ => ends_error ..) (fun found => ?_) h
    cases found with
    | none => exact (ends_error ..).leads (quiet_query rfl _)
    | some tenant => exact ⟨.codeNow tenant.id csrPem deviceCode userCode, rfl, .codeFound⟩
  | codeNow tenantId csrPem deviceCode userCode =>
    obtain ⟨now, rfl, rfl⟩ := Program.next_call.1 h
    exact ⟨.codeInsert tenantId csrPem deviceCode userCode (now + grantTtl), rfl, .codeTimed⟩
  | codeInsert tenantId csrPem deviceCode userCode expiresAt =>
    refine leads_sql (fun _ => ends_error ..) (fun grant => ?_) h
    exact ⟨.done _, rfl, .codeInserted (by rintro ⟨t, ht⟩; cases ht)⟩
  | pollConnect deviceCode =>
    exact leads_connect (fun _ => ends_error ..) ⟨.pollGrant deviceCode, rfl, .pollConnected⟩ h
  | pollGrant deviceCode =>
    refine leads_sql (fun _ => ends_error ..) (fun found => ?_) h
    cases found with
    | none => exact (ends_error ..).leads (quiet_query rfl _)
    | some grant => exact ⟨.pollNow grant, rfl, .pollFound⟩
  | pollNow grant => exact leads_pollNow h
  | pollTenant grant deviceId =>
    refine leads_sql (fun _ => ends_error ..) (fun found => ?_) h
    cases found with
    | none => exact (ends_error ..).leads (quiet_query rfl _)
    | some tenant => exact ⟨.pollDevice tenant deviceId, rfl, .pollTenantFound⟩
  | pollDevice tenant deviceId => exact leads_pollDevice h
  | verifyConnect userCode =>
    exact leads_connect (fun _ => ends_html ..) ⟨.verifyGrant userCode, rfl, .verifyConnected⟩ h
  | verifyGrant userCode =>
    refine leads_sql (fun _ => ends_html ..) (fun found => ?_) h
    cases found with
    | none => exact (ends_html ..).leads (quiet_query rfl _)
    | some grant => exact ⟨.verifyNow grant, rfl, .verifyFound⟩
  | verifyNow grant => exact leads_verifyNow h
  | check grant deviceId => exact leads_check h
  | sign grant => exact leads_sign h
  | refind grant signed publicKey deviceId =>
    refine leads_sql (fun _ => ends_html ..) (fun found => ?_) h
    cases found with
    | none => exact ⟨.register grant signed publicKey, rfl, .lost⟩
    | some device => exact ⟨.issue signed device, rfl, .refound⟩
  | register grant signed publicKey =>
    exact leads_sql (fun _ => ends_html ..)
      (fun device => ⟨.record grant signed device, rfl, .registered⟩) h
  | record grant signed device =>
    exact leads_sql (fun _ => ends_html ..) (fun _ => ⟨.issue signed device, rfl, .recorded⟩) h
  | issue signed device =>
    exact leads_sql (fun _ => ends_html ..) (fun _ => ⟨.done .approved, rfl, .issued⟩) h
  | done response => exact absurd h Program.not_next_pure

end Stage

end Hub

end Wkp
