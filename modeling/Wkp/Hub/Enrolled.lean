import Wkp.Hub.Issued
import Wkp.Hub.Listener

/-!
# Whose certificate it is

The enrollment handlers, call by call, with the commands of the operator and the requests of the front
door between them.

* `Hub.Elsewhere` : what the rest of the hub does; `Hub.HubStep` : the whole hub.
* `Hub.SignedFor`, `Hub.Submitted` : what the calls so far say of a certificate and of a grant.
* `Hub.Change` : everything that a step does to the tables.
* `Hub.Enrolling.step` : **every step keeps what is known of devices, grants and processes.**
* `Hub.enrolled_of_token` : **a poll returns a certificate that was signed for the key of its grant,
  for the tenant of its grant, and after the user code of the grant was submitted in time.**
-/

namespace Wkp

open Rust

namespace Hub

variable {C : Crypto}

/-! ### The whole hub -/

/-- The statement enrolls a device. -/
def Statement.enrolls : Statement → Bool
  | issueDeviceCertificate _ _ _ _ _ | createDeviceGrant _ _ _ _ _ | recordApprovedDevice _ _ => true
  | _ => false

/-- What the operator and the requests to the repositories do: any statement that enrolls no device, a
revocation, and what changes no table. -/
inductive Elsewhere : World → World → Prop
  | sql (w : World) {q : Statement} (h : q.enrolls = false) :
      Elsewhere w { w with db := (q.run w.clock w.db).2 }
  | revoke (w : World) (deviceId : ℕ) :
      Elsewhere w { w with db := (w.db.revokeDevice w.clock deviceId).2 }
  | rest {w w' : World} (hdb : w'.db = w.db) (hclock : w.clock ≤ w'.clock) : Elsewhere w w'

/-- What happens in the hub. -/
inductive HubEvent
  | handler (l : Pool.Label (Program.Exchange Reply))
  | elsewhere

section Steps

variable {L : Type}

/-- A step of the hub, with enrollment as it is given. -/
inductive HubStep (C : Crypto) (next : L → Program.Exchange Reply → L → Prop) (starts : L → Prop) :
    Pool L World → HubEvent → Pool L World → Prop
  | handler {pool pool' : Pool L World} {l : Pool.Label (Program.Exchange Reply)}
      (h : Pool.Step next (Exec C) starts pool l pool') :
      HubStep C next starts pool (.handler l) pool'
  | elsewhere (threads : ℕ → Option L) {w w' : World} (h : Elsewhere w w') :
      HubStep C next starts ⟨threads, w⟩ .elsewhere ⟨threads, w'⟩

end Steps

/-- A run of the hub. -/
abbrev HubRun (C : Crypto) := Trace.Run (HubStep C Program.Next (Starts C))

/-- A run of the hub, with the stages of the handlers. -/
abbrev StageRun (C : Crypto) := Trace.Run (HubStep C (Stage.Next C) Stage.Starts)

/-- A run of the hub is a run of the stages. -/
theorem HubRun.exists_stageRun {P : Pool Stage World} {ls : List HubEvent}
    {pool : Pool (Handler Rendered) World} (run : HubRun C (P.map (Stage.program C)) ls pool) :
    ∃ P' : Pool Stage World, pool = P'.map (Stage.program C) ∧ StageRun C P ls P' := by
  generalize hpool : P.map (Stage.program C) = pool₀ at run
  induction run generalizing P with
  | nil => exact ⟨P, hpool.symm, .nil _⟩
  | cons step _ ih =>
    subst hpool
    obtain ⟨threads, w⟩ := P
    generalize hpool : Pool.map (Stage.program C) ⟨threads, w⟩ = pool₀ at step
    cases step with
    | handler h =>
      subst hpool
      obtain ⟨P₁, rfl, h₁⟩ := h.simulate (fun p hp => hp.exists_stage C)
        fun _ _ _ hnext => Stage.exists_next hnext
      obtain ⟨P', rfl, run'⟩ := ih rfl
      exact ⟨P', rfl, .cons (.handler h₁) run'⟩
    | @elsewhere _ _ w' h =>
      obtain ⟨rfl, rfl⟩ := Pool.mk.inj hpool
      obtain ⟨P', rfl, run'⟩ := ih (P := ⟨threads, w'⟩) rfl
      exact ⟨P', rfl, .cons (.elsewhere threads h) run'⟩

/-! ### What the calls say -/

/-- The hub has signed the certificate, with the serial number, for the key. -/
def SignedFor (C : Crypto) (ls : List HubEvent) (certificatePem serial publicKey : Str) : Prop :=
  ∃ i csrPem signed, .handler (.call i ⟨.signDeviceCsr csrPem, .ok signed⟩) ∈ ls ∧
    signed.certificatePem = certificatePem ∧ signed.serialHex = serial ∧
    C.certSerialHex certificatePem = some serial ∧
    C.csrPublicKey csrPem = some signed.publicKeyRaw ∧
    C.opensshPublicKey signed.publicKeyRaw = .ok publicKey

/-- A process has found the grant by its user code. -/
def FoundBy (ls : List HubEvent) (i : ℕ) (grant : DeviceGrant) : Prop :=
  ∃ row, .handler (.call i ⟨.sql (.findGrantByUserCode grant.userCode), .ok (some row)⟩) ∈ ls

/-- The user code of the grant was submitted before the grant expired. -/
def Submitted (ls : List HubEvent) (grant : DeviceGrant) : Prop :=
  ∃ i now, FoundBy ls i grant ∧ .handler (.call i ⟨.now, now⟩) ∈ ls ∧ now < grant.expiresAt

theorem SignedFor.mono {ls ls' : List HubEvent} (h : ls ⊆ ls') {pem serial key : Str}
    (hs : SignedFor C ls pem serial key) : SignedFor C ls' pem serial key := by
  obtain ⟨i, csrPem, signed, hmem, hrest⟩ := hs
  exact ⟨i, csrPem, signed, h hmem, hrest⟩

theorem FoundBy.mono {ls ls' : List HubEvent} (h : ls ⊆ ls') {i : ℕ} {grant : DeviceGrant}
    (hg : FoundBy ls i grant) : FoundBy ls' i grant := by
  obtain ⟨row, hmem⟩ := hg
  exact ⟨row, h hmem⟩

theorem Submitted.mono {ls ls' : List HubEvent} (h : ls ⊆ ls') {grant : DeviceGrant}
    (hg : Submitted ls grant) : Submitted ls' grant := by
  obtain ⟨i, now, hfound, hnow, hlt⟩ := hg
  exact ⟨i, now, hfound.mono h, h hnow, hlt⟩

/-- A submission is of the code and the expiry of the grant, which never change. -/
theorem DeviceGrant.After.submitted_iff {grant row : DeviceGrant} (h : grant.After row)
    {ls : List HubEvent} : Submitted ls row ↔ Submitted ls grant := by
  have hexpires : row.expiresAt = grant.expiresAt := by
    have hfield := congrArg DeviceGrant.expiresAt h.same
    exact hfield
  unfold Submitted FoundBy
  rw [h.userCode_eq, hexpires]

theorem DeviceGrant.After.tenantId_eq {grant row : DeviceGrant} (h : grant.After row) :
    row.tenantId = grant.tenantId := by
  have hfield := congrArg DeviceGrant.tenantId h.same
  exact hfield

/-! ### What a step does to the tables -/

/-- The row of the device at a later time. -/
structure Device.Stays (device row : Device) : Prop where
  /-- The id stays. -/
  id_eq : row.id = device.id
  /-- The key stays. -/
  publicKey_eq : row.publicKey = device.publicKey
  /-- The tenant stays. -/
  tenantId_eq : row.tenantId = device.tenantId
  /-- A revocation is not taken back. -/
  revoked : device.revokedAt.isSome = true → row.revokedAt.isSome = true

theorem Device.Stays.refl (device : Device) : device.Stays device := ⟨rfl, rfl, rfl, fun h => h⟩

theorem Device.Stays.trans {d₁ d₂ d₃ : Device} (h : d₁.Stays d₂) (h' : d₂.Stays d₃) :
    d₁.Stays d₃ :=
  ⟨h'.id_eq.trans h.id_eq, h'.publicKey_eq.trans h.publicKey_eq,
    h'.tenantId_eq.trans h.tenantId_eq, fun hd => h'.revoked (h.revoked hd)⟩

/-- No row is lost, and what names it stays. -/
structure Db.Grows (db db' : Db) : Prop where
  /-- The tenants. -/
  tenants : ∀ t ∈ db.tenants, ∃ row ∈ db'.tenants, row.id = t.id ∧ row.slug = t.slug
  /-- The devices. -/
  devices : ∀ d ∈ db.devices, ∃ row ∈ db'.devices, d.Stays row
  /-- The grants. -/
  grants : ∀ g ∈ db.grants, ∃ row ∈ db'.grants, g.After row

theorem Db.Grows.refl (db : Db) : db.Grows db :=
  ⟨fun t ht => ⟨t, ht, rfl, rfl⟩, fun d hd => ⟨d, hd, .refl d⟩, fun g hg => ⟨g, hg, .refl g⟩⟩

theorem Db.Grows.trans {db₁ db₂ db₃ : Db} (h : db₁.Grows db₂) (h' : db₂.Grows db₃) :
    db₁.Grows db₃ where
  tenants t ht := by
    obtain ⟨t', ht', hid, hslug⟩ := h.tenants t ht
    obtain ⟨t'', ht'', hid', hslug'⟩ := h'.tenants t' ht'
    exact ⟨t'', ht'', hid'.trans hid, hslug'.trans hslug⟩
  devices d hd := by
    obtain ⟨d', hd', hstays⟩ := h.devices d hd
    obtain ⟨d'', hd'', hstays'⟩ := h'.devices d' hd'
    exact ⟨d'', hd'', hstays.trans hstays'⟩
  grants g hg := by
    obtain ⟨g', hg', hafter⟩ := h.grants g hg
    obtain ⟨g'', hg'', hafter'⟩ := h'.grants g' hg'
    exact ⟨g'', hg'', hafter.trans hafter'⟩

/-- Everything that a step does to the tables. -/
inductive Change (C : Crypto) (ls : List HubEvent) (db : Db) : Db → Prop
  | rest {db' : Db} (hdevices : db'.devices = db.devices) (hgrants : db'.grants = db.grants)
      (htenants : ∀ t ∈ db.tenants, ∃ row ∈ db'.tenants, row.id = t.id ∧ row.slug = t.slug) :
      Change C ls db db'
  | granted {grant : DeviceGrant} {n : ℕ} (h : grant.approvedDeviceId = none) :
      Change C ls db { db with grants := db.grants ++ [grant], nextGrantId := n }
  | registered {device : Device} {n : ℕ} (hpem : device.certificatePem = none)
      (hserial : device.certSerial = none) :
      Change C ls db { db with devices := db.devices ++ [device], nextDeviceId := n }
  | recorded {deviceId grantId : ℕ} (h : ∀ g ∈ db.grants, g.id = grantId →
      g.approvedDeviceId = none ∧ Submitted ls g ∧
      ∃ d ∈ db.devices, d.id = deviceId ∧ d.tenantId = g.tenantId) :
      Change C ls db { db with grants := db.grants.map fun g =>
        if g.id = grantId then { g with approvedDeviceId := some deviceId } else g }
  | issued {deviceId certIssuedAt certExpiresAt : ℕ} {certificatePem certSerial : Str}
      (h : ∀ d ∈ db.devices, d.id = deviceId → SignedFor C ls certificatePem certSerial d.publicKey) :
      Change C ls db { db with devices := db.devices.map fun d =>
        if d.id = deviceId then { d with
          certificatePem := some certificatePem
          certSerial := some certSerial
          certIssuedAt := some certIssuedAt
          certExpiresAt := some certExpiresAt } else d }
  | revoked (deviceId now : ℕ) :
      Change C ls db { db with devices := db.devices.map fun d =>
        if d.id = deviceId ∧ d.revokedAt = none then { d with revokedAt := some now } else d }

theorem Change.refl (C : Crypto) (ls : List HubEvent) (db : Db) : Change C ls db db :=
  .rest rfl rfl fun t ht => ⟨t, ht, rfl, rfl⟩

theorem Change.grows {ls : List HubEvent} {db db' : Db} (h : Change C ls db db') : db.Grows db' := by
  have hrefl := Db.Grows.refl db
  cases h with
  | rest hdevices hgrants htenants =>
    exact ⟨htenants, by rw [hdevices]; exact hrefl.devices, by rw [hgrants]; exact hrefl.grants⟩
  | granted =>
    exact { hrefl with grants := fun g hg => ⟨g, List.mem_append_left _ hg, .refl g⟩ }
  | registered =>
    exact { hrefl with devices := fun d hd => ⟨d, List.mem_append_left _ hd, .refl d⟩ }
  | recorded hgrant =>
    refine { hrefl with grants := fun g hg => ⟨_, List.mem_map_of_mem hg, ?_⟩ }
    split_ifs with hid
    · refine ⟨rfl, fun deviceId happroved => ?_⟩
      rw [(hgrant g hg hid).1] at happroved
      cases happroved
    · exact .refl g
  | issued =>
    refine { hrefl with devices := fun d hd => ⟨_, List.mem_map_of_mem hd, ?_⟩ }
    split_ifs
    · exact ⟨rfl, rfl, rfl, fun h => h⟩
    · exact .refl d
  | revoked =>
    refine { hrefl with devices := fun d hd => ⟨_, List.mem_map_of_mem hd, ?_⟩ }
    split_ifs
    · exact ⟨rfl, rfl, rfl, fun _ => rfl⟩
    · exact .refl d

/-! ### What is known of devices and grants -/

/-- The certificate on file was signed for the key of the device. -/
def Device.Filed (C : Crypto) (ls : List HubEvent) (device : Device) : Prop :=
  (device.certificatePem = none ∧ device.certSerial = none) ∨
    ∃ pem serial, device.certificatePem = some pem ∧ device.certSerial = some serial ∧
      SignedFor C ls pem serial device.publicKey

/-- A grant is approved for a device of its tenant, after its user code was submitted in time, and the
certificates on file were signed for the keys of their devices. -/
structure Attributed (C : Crypto) (ls : List HubEvent) (db : Db) : Prop where
  /-- The grants. -/
  approved : ∀ grant ∈ db.grants, ∀ deviceId, grant.approvedDeviceId = some deviceId →
    Submitted ls grant ∧ ∃ device ∈ db.devices, device.id = deviceId ∧
      device.tenantId = grant.tenantId
  /-- The devices. -/
  filed : ∀ device ∈ db.devices, device.Filed C ls

theorem Device.Filed.mono {ls ls' : List HubEvent} (h : ls ⊆ ls') {device : Device}
    (hd : device.Filed C ls) : device.Filed C ls' := by
  rcases hd with hnone | ⟨pem, serial, hpem, hserial, hsigned⟩
  · exact .inl hnone
  · exact .inr ⟨pem, serial, hpem, hserial, hsigned.mono h⟩

theorem Attributed.mono {ls ls' : List HubEvent} (h : ls ⊆ ls') {db : Db}
    (hdb : Attributed C ls db) : Attributed C ls' db :=
  ⟨fun grant hg deviceId happroved => ⟨(hdb.approved grant hg deviceId happroved).1.mono h,
    (hdb.approved grant hg deviceId happroved).2⟩, fun d hd => (hdb.filed d hd).mono h⟩

theorem Attributed.change {ls : List HubEvent} {db db' : Db} (hdb : Attributed C ls db)
    (h : Change C ls db db') : Attributed C ls db' := by
  -- a device of the tenant is still there
  have hkeep : ∀ {deviceId tenantId : ℕ},
      (∃ device ∈ db.devices, device.id = deviceId ∧ device.tenantId = tenantId) →
      ∃ device ∈ db'.devices, device.id = deviceId ∧ device.tenantId = tenantId := by
    rintro deviceId tenantId ⟨d, hd, hid, htenant⟩
    obtain ⟨row, hrow, hstays⟩ := h.grows.devices d hd
    exact ⟨row, hrow, hstays.id_eq.trans hid, hstays.tenantId_eq.trans htenant⟩
  have hsame : ∀ grant ∈ db.grants, ∀ deviceId, grant.approvedDeviceId = some deviceId →
      Submitted ls grant ∧ ∃ device ∈ db'.devices, device.id = deviceId ∧
        device.tenantId = grant.tenantId :=
    fun grant hg deviceId happroved => ⟨(hdb.approved grant hg deviceId happroved).1,
      hkeep (hdb.approved grant hg deviceId happroved).2⟩
  cases h with
  | rest hdevices hgrants =>
    refine ⟨?_, ?_⟩
    · rw [hgrants]
      exact hsame
    · rw [hdevices]
      exact hdb.filed
  | granted hnone =>
    refine ⟨fun grant hg deviceId happroved => ?_, hdb.filed⟩
    rcases List.mem_append.1 hg with hg | hg
    · exact hsame grant hg deviceId happroved
    · rw [List.mem_singleton.1 hg, hnone] at happroved
      cases happroved
  | registered hpem hserial =>
    refine ⟨hsame, fun d hd => ?_⟩
    rcases List.mem_append.1 hd with hd | hd
    · exact hdb.filed d hd
    · rw [List.mem_singleton.1 hd]
      exact .inl ⟨hpem, hserial⟩
  | recorded hgrant =>
    refine ⟨fun grant hg deviceId happroved => ?_, hdb.filed⟩
    obtain ⟨g₀, hg₀, rfl⟩ := List.mem_map.1 hg
    split_ifs at happroved ⊢ with hid
    · obtain rfl := Option.some.inj happroved
      obtain ⟨-, hsubmitted, hdevice⟩ := hgrant g₀ hg₀ hid
      exact ⟨hsubmitted, hdevice⟩
    · exact hsame g₀ hg₀ deviceId happroved
  | issued hsigned =>
    refine ⟨hsame, fun d hd => ?_⟩
    obtain ⟨d₀, hd₀, rfl⟩ := List.mem_map.1 hd
    split_ifs with hid
    · exact .inr ⟨_, _, rfl, rfl, hsigned d₀ hd₀ hid⟩
    · exact hdb.filed d₀ hd₀
  | revoked =>
    refine ⟨hsame, fun d hd => ?_⟩
    obtain ⟨d₀, hd₀, rfl⟩ := List.mem_map.1 hd
    have hfiled := hdb.filed d₀ hd₀
    split_ifs
    · exact hfiled
    · exact hfiled

/-! ### The rest of the hub keeps what is known -/

theorem Change.extends {ls : List HubEvent} {db db' : Db} (h : Change C ls db db') :
    db.Extends db' := by
  have hrefl := Db.Extends.refl db
  cases h with
  | rest hdevices hgrants =>
    exact ⟨by rw [hgrants]; exact hrefl.grants, by rw [hdevices]; exact hrefl.devices⟩
  | granted => exact extends_insert
  | registered => exact extends_register
  | recorded hgrant => exact extends_record fun g hg hid => (hgrant g hg hid).1
  | issued => exact extends_issue
  | revoked =>
    refine { hrefl with devices := fun d hd => ⟨_, List.mem_map_of_mem hd, ?_⟩ }
    split_ifs
    · exact ⟨rfl, rfl, fun h => h⟩
    · exact .refl d

theorem change_updateTenant {ls : List HubEvent} {db : Db} {tenantId : ℕ} {f : Tenant → Tenant}
    (hid : ∀ t, (f t).id = t.id) (hslug : ∀ t, (f t).slug = t.slug) :
    Change C ls db (db.updateTenant tenantId f).2 := by
  unfold Db.updateTenant
  split_ifs
  · refine .rest rfl rfl fun t ht => ⟨_, List.mem_map_of_mem ht, ?_⟩
    split_ifs
    · exact ⟨hid t, hslug t⟩
    · exact ⟨rfl, rfl⟩
  · exact .refl ..

theorem Elsewhere.change {ls : List HubEvent} {w w' : World} (h : Elsewhere w w') :
    Change C ls w.db w'.db := by
  cases h with
  | @sql q hq =>
    cases q with
    | createTenant slug =>
      simp only [Statement.run, Db.createTenant]
      split_ifs
      · exact .rest rfl rfl fun t ht => ⟨t, ht, rfl, rfl⟩
      · exact .rest rfl rfl fun t ht => ⟨t, List.mem_append_left _ ht, rfl, rfl⟩
    | registerDevice tenantId publicKey =>
      simp only [Statement.run, Db.registerDevice]
      split_ifs
      · exact .rest rfl rfl fun t ht => ⟨t, ht, rfl, rfl⟩
      · exact .rest rfl rfl fun t ht => ⟨t, ht, rfl, rfl⟩
      · exact .registered rfl rfl
    | setAlwaysWarm => exact change_updateTenant (fun _ => rfl) fun _ => rfl
    | recordPodStarted => exact change_updateTenant (fun _ => rfl) fun _ => rfl
    | recordPodStopped => exact change_updateTenant (fun _ => rfl) fun _ => rfl
    | touchLastActive => exact change_updateTenant (fun _ => rfl) fun _ => rfl
    | issueDeviceCertificate | createDeviceGrant | recordApprovedDevice => cases hq
    | _ => exact .refl ..
  | revoke deviceId =>
    unfold Db.revokeDevice
    dsimp only
    split
    · exact .refl ..
    · exact .revoked deviceId w.clock
  | rest hdb =>
    rw [hdb]
    exact .refl ..

theorem Db.WellFormed.revokeDevice {db : Db} (h : db.WellFormed) (now deviceId : ℕ) :
    (db.revokeDevice now deviceId).2.WellFormed := by
  unfold Db.revokeDevice
  split
  · exact h
  · exact { h with
      deviceId := Table.keyed_map h.deviceId fun d _ => by split_ifs <;> rfl
      publicKey := Table.keyed_map h.publicKey fun d _ => by split_ifs <;> rfl
      nextDeviceId := by
        intro d hd
        obtain ⟨d₀, hd₀, rfl⟩ := List.mem_map.1 hd
        have hlt := h.nextDeviceId d₀ hd₀
        split_ifs <;> exact hlt
      certSerial := by
        intro d hd d' hd' serial hserial hserial'
        obtain ⟨d₁, hd₁, rfl⟩ := List.mem_map.1 hd
        obtain ⟨d₂, hd₂, rfl⟩ := List.mem_map.1 hd'
        have h₁ : d₁.certSerial = some serial := by split_ifs at hserial <;> exact hserial
        have h₂ : d₂.certSerial = some serial := by split_ifs at hserial' <;> exact hserial'
        rw [h.certSerial d₁ hd₁ d₂ hd₂ serial h₁ h₂]
      approvedDevice := by
        intro g hg approved happroved
        obtain ⟨d, hd, hid⟩ := h.approvedDevice g hg approved happroved
        refine ⟨_, List.mem_map_of_mem hd, ?_⟩
        split_ifs <;> exact hid }

theorem Elsewhere.wellFormed {w w' : World} (h : Elsewhere w w') (hw : w.db.WellFormed) :
    w'.db.WellFormed := by
  cases h with
  | sql => exact hw.run _ _
  | revoke => exact hw.revokeDevice _ _
  | rest hdb =>
    rw [hdb]
    exact hw

/-- The rest of the hub makes and approves no grants. -/
theorem Elsewhere.grants_eq {w w' : World} (h : Elsewhere w w') : w'.db.grants = w.db.grants := by
  cases h with
  | @sql q hq =>
    cases q with
    | issueDeviceCertificate | createDeviceGrant | recordApprovedDevice => cases hq
    | createTenant | registerDevice =>
      simp only [Statement.run, Db.createTenant, Db.registerDevice]
      split_ifs <;> rfl
    | setAlwaysWarm | recordPodStarted | recordPodStopped | touchLastActive =>
      simp only [Statement.run, Db.setAlwaysWarm, Db.recordPodStarted, Db.recordPodStopped,
        Db.touchLastActive, Db.updateTenant]
      split_ifs <;> rfl
    | _ => rfl
  | revoke =>
    unfold Db.revokeDevice
    dsimp only
    split <;> rfl
  | rest hdb => rw [hdb]

theorem Approving.elsewhere {threads : ℕ → Option Stage} {w w' : World}
    (h : Approving C ⟨threads, w⟩) (he : Elsewhere w w') : Approving C ⟨threads, w'⟩ := by
  have hchange : Change C [] w.db w'.db := he.change
  have hext := hchange.extends
  refine ⟨he.wellFormed h.wellFormed, ?_, fun i stage hi => (h.holds i stage hi).mono hext, ?_,
    h.apart⟩
  · intro grant hgrant deviceId happroved
    dsimp only at hgrant
    rw [he.grants_eq] at hgrant
    obtain ⟨d, hd, hid, hkey⟩ := h.linked grant hgrant deviceId happroved
    obtain ⟨row, hrow, hafter⟩ := hext.devices d hd
    exact ⟨row, hrow, hafter.id_eq.trans hid, by rwa [hafter.publicKey_eq]⟩
  · intro i grant cert device hi
    dsimp only
    rw [he.grants_eq]
    exact h.unrecorded i grant cert device hi

/-! ### What the processes know -/

/-- What a process knows of its grant, its certificate and its device. -/
def Stage.Sees (C : Crypto) (ls : List HubEvent) (db : Db) (i : ℕ) : Stage → Prop
  | verifyNow grant => FoundBy ls i grant
  | check grant _ | sign grant => Submitted ls grant
  | refind grant signed publicKey _ | register grant signed publicKey => Submitted ls grant ∧
      SignedFor C ls signed.certificatePem signed.serialHex publicKey
  | record grant signed device => Submitted ls grant ∧
      SignedFor C ls signed.certificatePem signed.serialHex device.publicKey ∧
      ∃ row ∈ db.devices, row.id = device.id ∧ row.tenantId = grant.tenantId
  | issue signed device => SignedFor C ls signed.certificatePem signed.serialHex device.publicKey
  | _ => True

theorem Stage.Sees.mono {ls ls' : List HubEvent} {db db' : Db} (hls : ls ⊆ ls')
    (hdb : db.Grows db') {i : ℕ} {stage : Stage} (h : stage.Sees C ls db i) :
    stage.Sees C ls' db' i := by
  cases stage with
  | verifyNow => exact FoundBy.mono hls h
  | check | sign => exact Submitted.mono hls h
  | refind | register => exact ⟨h.1.mono hls, h.2.mono hls⟩
  | record =>
    obtain ⟨hsubmitted, hsigned, d, hd, hid, htenant⟩ := h
    obtain ⟨row, hrow, hstays⟩ := hdb.devices d hd
    exact ⟨hsubmitted.mono hls, hsigned.mono hls, row, hrow, hstays.id_eq.trans hid,
      hstays.tenantId_eq.trans htenant⟩
  | issue => exact SignedFor.mono hls h
  | _ => trivial

/-- What is known of devices, grants and processes. -/
structure Enrolling (C : Crypto) (ls : List HubEvent) (pool : Pool Stage World) : Prop where
  /-- What the submissions know of the tables. -/
  approving : Approving C pool
  /-- What is known of devices and grants. -/
  attributed : Attributed C ls pool.state.db
  /-- What the processes know. -/
  sees : ∀ i stage, pool.threads i = some stage → stage.Sees C ls pool.state.db i

section Call

variable {ls : List HubEvent} {pool : Pool Stage World} {i : ℕ} {stage stage' : Stage}
  {e : Program.Exchange Reply} {w' : World}

theorem Enrolling.change (h : Enrolling C ls pool) (hi : pool.threads i = some stage)
    (hnext : stage.Next C e stage') (hexec : Exec C pool.state e w') :
    Change C ls pool.state.db w'.db := by
  rcases hnext.quiet_or_writes with hquiet | hwrites
  · have hsame := hexec.sameRows hquiet
    refine .rest hsame.devices hsame.grants ?_
    rw [hsame.tenants]
    exact fun t ht => ⟨t, ht, rfl, rfl⟩
  · -- four calls write rows, one for each kind of change
    cases hwrites with
    | inserted =>
      obtain ⟨hok, rfl⟩ := hexec.sql_ok
      dsimp only [Statement.run] at hok ⊢
      obtain ⟨hgrant, hdb⟩ := Db.createDeviceGrant_ok hok
      rw [hdb]
      exact .granted (by rw [hgrant])
    | registered =>
      obtain ⟨hok, rfl⟩ := hexec.sql_ok
      dsimp only [Statement.run] at hok ⊢
      obtain ⟨hdevice, -, hdb⟩ := Db.registerDevice_ok hok
      rw [hdb]
      exact .registered (by rw [hdevice]) (by rw [hdevice])
    | recorded =>
      obtain ⟨hok, rfl⟩ := hexec.sql_ok
      dsimp only [Statement.run] at hok ⊢
      rw [(Db.recordApprovedDevice_ok hok).2]
      obtain ⟨⟨row, hrow, hafter⟩, -, -⟩ := h.approving.holds i _ hi
      obtain ⟨hsubmitted, -, d, hd, hid, htenant⟩ := h.sees i _ hi
      refine .recorded fun g hg hgid => ⟨h.approving.not_approved hi g hg hgid, ?_, d, hd, hid, ?_⟩
      all_goals
        obtain rfl : g = row :=
          h.approving.wellFormed.grantId.eq_of_key_eq hg hrow (hgid.trans hafter.id_eq.symm)
      · exact hafter.submitted_iff.2 hsubmitted
      · exact htenant.trans hafter.tenantId_eq.symm
    | issued =>
      obtain ⟨hok, rfl⟩ := hexec.sql_ok
      dsimp only [Statement.run] at hok ⊢
      rw [(Db.issueDeviceCertificate_ok hok).2]
      obtain ⟨row, hrow, hafter⟩ := h.approving.holds i _ hi
      refine .issued fun d hd hid => ?_
      obtain rfl : d = row :=
        h.approving.wellFormed.deviceId.eq_of_key_eq hd hrow (hid.trans hafter.id_eq.symm)
      rw [hafter.publicKey_eq]
      exact h.sees i _ hi

theorem Enrolling.sees_next (h : Enrolling C ls pool) (hi : pool.threads i = some stage)
    (hnext : stage.Next C e stage') (hexec : Exec C pool.state e w') :
    stage'.Sees C (ls ++ [.handler (.call i e)]) w'.db i := by
  have hsub : ls ⊆ ls ++ [.handler (.call i e)] := List.subset_append_left _ _
  have hlast : .handler (.call i e) ∈ ls ++ [.handler (.call i e)] :=
    List.mem_append_right _ (List.mem_singleton_self _)
  have hs := (h.sees i stage hi).mono hsub (h.change hi hnext hexec).grows
  cases hnext with
  | verifyFound =>
    obtain ⟨hok, rfl⟩ := hexec.sql_ok
    obtain ⟨-, rfl⟩ := h.approving.wellFormed.findGrantByUserCode.1 (Except.ok.inj hok)
    exact ⟨_, hlast⟩
  | verifyTimed hnow | verifyTimedApproved hnow =>
    exact ⟨i, _, hs, hlast, by simpa [DeviceGrant.isExpired] using hnow⟩
  | checked => exact hs
  | signed hkey | signedApproved hkey =>
    exact ⟨hs, i, _, _, hlast, rfl, rfl, hexec.sign_ok.2.1, hexec.sign_ok.1, hkey⟩
  | refound =>
    obtain ⟨hok, rfl⟩ := hexec.sql_ok
    obtain ⟨hd, hid⟩ := h.approving.wellFormed.findDeviceById.1 (Except.ok.inj hok)
    obtain ⟨⟨row, hrow, hafter⟩, hkey, happroved⟩ := h.approving.holds i _ hi
    -- the device of an approved grant has the key of the grant
    obtain ⟨d, hd', hid', hkey'⟩ := h.approving.linked row hrow _ (hafter.approved _ happroved)
    have hsame := h.approving.wellFormed.deviceId.eq_of_key_eq hd hd' (hid.trans hid'.symm)
    rw [hafter.csrPem_eq] at hkey'
    have hpublic := hkey.unique hkey'
    rw [← hsame] at hpublic
    have hsigned := hs.2
    rw [hpublic] at hsigned
    exact hsigned
  | lost => exact hs
  | registered =>
    obtain ⟨hok, rfl⟩ := hexec.sql_ok
    obtain ⟨hdevice, -, hdb⟩ := Db.registerDevice_ok hok
    have hkey := congrArg Device.publicKey hdevice
    refine ⟨hs.1, ?_, _, ?_, rfl, by rw [hdevice]⟩
    · dsimp only at hkey
      rw [hkey]
      exact hs.2
    · dsimp only [Statement.run]
      rw [hdb]
      exact List.mem_append_right _ (List.mem_singleton_self _)
  | recorded => exact hs.2.1
  | _ => trivial

end Call

/-- **Every step keeps what is known**, and no row is lost. -/
theorem Enrolling.step {ls : List HubEvent} {pool pool' : Pool Stage World} {l : HubEvent}
    (h : Enrolling C ls pool) (hstep : HubStep C (Stage.Next C) Stage.Starts pool l pool') :
    Enrolling C (ls ++ [l]) pool' ∧ pool.state.db.Grows pool'.state.db := by
  have hsub : ls ⊆ ls ++ [l] := List.subset_append_left _ _
  cases hstep with
  | @elsewhere threads w w' he =>
    -- what the rest of the hub does enrolls nobody
    have hchange : Change C ls w.db w'.db := he.change
    exact ⟨⟨h.approving.elsewhere he, (h.attributed.change hchange).mono hsub,
      fun i stage hi => (h.sees i stage hi).mono hsub hchange.grows⟩, hchange.grows⟩
  | handler hstep =>
    have happroving := (h.approving.step hstep).1
    cases hstep with
    | @start threads w i stage hfree hstart =>
      refine ⟨⟨happroving, h.attributed.mono hsub, fun j stage' hj => ?_⟩, .refl _⟩
      dsimp only at hj
      by_cases hji : j = i
      · rw [hji, Function.update_self] at hj
        obtain rfl := Option.some.inj hj
        cases stage with
        | codeConnect | pollConnect | verifyConnect | done => trivial
        | _ => exact hstart.elim
      · rw [Function.update_of_ne hji] at hj
        exact (h.sees j stage' hj).mono hsub (.refl _)
    | @call threads w w' i stage stage' e hi hnext hexec =>
      have hchange := h.change hi hnext hexec
      refine ⟨⟨happroving, (h.attributed.change hchange).mono hsub, fun j stage'' hj => ?_⟩,
        hchange.grows⟩
      dsimp only at hj
      by_cases hji : j = i
      · rw [hji, Function.update_self] at hj
        obtain rfl := Option.some.inj hj
        rw [hji]
        exact h.sees_next hi hnext hexec
      · rw [Function.update_of_ne hji] at hj
        exact (h.sees j stage'' hj).mono hsub hchange.grows

theorem Enrolling.init {w : World} (hdb : w.db = {}) : Enrolling C [] ⟨fun _ => none, w⟩ := by
  refine ⟨.init ?_ ?_, ⟨?_, ?_⟩, fun i stage hi => by cases hi⟩
  · rw [hdb]
    exact .empty
  · rw [hdb]
    intro grant hgrant
    cases hgrant
  · dsimp only
    rw [hdb]
    intro grant hgrant
    cases hgrant
  · dsimp only
    rw [hdb]
    intro device hdevice
    cases hdevice

theorem Enrolling.run {ls₀ ls : List HubEvent} {pool pool' : Pool Stage World}
    (h : Enrolling C ls₀ pool) (run : StageRun C pool ls pool') :
    Enrolling C (ls₀ ++ ls) pool' ∧ pool.state.db.Grows pool'.state.db := by
  refine Trace.Run.history (I := fun ls p => Enrolling C (ls₀ ++ ls) p ∧
    pool.state.db.Grows p.state.db) ?_ ?_ run
  · rw [List.append_nil]
    exact ⟨h, .refl _⟩
  · rintro ls p l p' - ⟨hp, hgrows⟩ hstep
    obtain ⟨hp', hgrows'⟩ := hp.step hstep
    rw [List.append_assoc] at hp'
    exact ⟨hp', hgrows.trans hgrows'⟩

/-! ### Polls -/

/-- The enrollment that a certificate came from. -/
structure Enrollment (C : Crypto) (ls : List HubEvent) (deviceCode : Str)
    (token : TokenSuccessResponse) (grant : DeviceGrant) (tenant : Tenant) (device : Device) :
    Prop where
  /-- The grant is the one that was polled. -/
  deviceCode_eq : grant.deviceCode = deviceCode
  /-- The tenant is that of the grant, and it is named. -/
  tenantId_eq : grant.tenantId = tenant.id
  /-- The name of the tenant. -/
  slug_eq : tenant.slug = token.tenantSlug
  /-- The device is the one that was approved, and it is named. -/
  approved : grant.approvedDeviceId = some device.id
  /-- The number of the device. -/
  deviceId_eq : device.id = token.deviceId
  /-- The device is one of the tenant. -/
  member : device.tenantId = tenant.id
  /-- The device has the key of the request. -/
  key : KeyOf C grant.csrPem device.publicKey
  /-- The certificate was signed for the key of the device. -/
  signed : ∃ serial, SignedFor C ls token.certificatePem serial device.publicKey
  /-- The user code was submitted before the grant expired. -/
  submitted : Submitted ls grant
  /-- The response says so, with the certificate of the hub. -/
  status_eq : token.status = "approved".toList ∧ token.caCertPem = C.rootCertPem

/-- The certificate came from an enrollment that the tables know. -/
def Enrolled (C : Crypto) (ls : List HubEvent) (db : Db) (deviceCode : Str)
    (token : TokenSuccessResponse) : Prop :=
  ∃ grant ∈ db.grants, ∃ tenant ∈ db.tenants, ∃ device ∈ db.devices,
    Enrollment C ls deviceCode token grant tenant device

theorem Enrolled.mono {ls ls' : List HubEvent} {db db' : Db} (hls : ls ⊆ ls') (hdb : db.Grows db')
    {deviceCode : Str} {token : TokenSuccessResponse} (h : Enrolled C ls db deviceCode token) :
    Enrolled C ls' db' deviceCode token := by
  obtain ⟨grant, hgrant, tenant, htenant, device, hdevice, h⟩ := h
  obtain ⟨grant', hgrant', hafter⟩ := hdb.grants grant hgrant
  obtain ⟨tenant', htenant', htid, hslug⟩ := hdb.tenants tenant htenant
  obtain ⟨device', hdevice', hstays⟩ := hdb.devices device hdevice
  obtain ⟨serial, hsigned⟩ := h.signed
  refine ⟨grant', hgrant', tenant', htenant', device', hdevice', ?_⟩
  exact {
    deviceCode_eq := hafter.deviceCode_eq.trans h.deviceCode_eq
    tenantId_eq := by rw [hafter.tenantId_eq, htid, h.tenantId_eq]
    slug_eq := hslug.trans h.slug_eq
    approved := by rw [hafter.approved _ h.approved, hstays.id_eq]
    deviceId_eq := hstays.id_eq.trans h.deviceId_eq
    member := by rw [hstays.tenantId_eq, htid, h.member]
    key := by rw [hafter.csrPem_eq, hstays.publicKey_eq]; exact h.key
    signed := ⟨serial, by rw [hstays.publicKey_eq]; exact hsigned.mono hls⟩
    submitted := hafter.submitted_iff.2 (h.submitted.mono hls)
    status_eq := h.status_eq }

/-- The grant of the device code is approved for the device, and the tenant is that of the grant. -/
def Db.Leads (db : Db) (deviceCode : Str) (tenant : Tenant) (deviceId : ℕ) : Prop :=
  ∃ grant ∈ db.grants, grant.deviceCode = deviceCode ∧ grant.approvedDeviceId = some deviceId ∧
    ∃ row ∈ db.tenants, row.id = grant.tenantId ∧ row.slug = tenant.slug

/-- What a process knows that polls for a device code. -/
def Stage.Polls (C : Crypto) (ls : List HubEvent) (db : Db) (deviceCode : Str) : Stage → Prop
  | pollConnect code | pollGrant code => code = deviceCode
  | pollNow grant => db.Knows grant ∧ grant.deviceCode = deviceCode
  | pollTenant grant deviceId => db.Knows grant ∧ grant.deviceCode = deviceCode ∧
      grant.approvedDeviceId = some deviceId
  | pollDevice tenant deviceId => db.Leads deviceCode tenant deviceId
  | done response => ∀ token, response.body = .token token → Enrolled C ls db deviceCode token
  | _ => False

theorem Db.Grows.knows {db db' : Db} (h : db.Grows db') {grant : DeviceGrant}
    (hg : db.Knows grant) : db'.Knows grant := by
  obtain ⟨row, hrow, hafter⟩ := hg
  obtain ⟨row', hrow', hafter'⟩ := h.grants row hrow
  exact ⟨row', hrow', hafter.trans hafter'⟩

theorem Db.Leads.mono {db db' : Db} (h : db.Grows db') {deviceCode : Str} {tenant : Tenant}
    {deviceId : ℕ} (hl : db.Leads deviceCode tenant deviceId) :
    db'.Leads deviceCode tenant deviceId := by
  obtain ⟨grant, hgrant, hcode, happroved, t, ht, htid, hslug⟩ := hl
  obtain ⟨grant', hgrant', hafter⟩ := h.grants grant hgrant
  obtain ⟨t', ht', htid', hslug'⟩ := h.tenants t ht
  exact ⟨grant', hgrant', hafter.deviceCode_eq.trans hcode, hafter.approved _ happroved, t', ht',
    htid'.trans (htid.trans hafter.tenantId_eq.symm), hslug'.trans hslug⟩

theorem Stage.Polls.mono {ls ls' : List HubEvent} {db db' : Db} (hls : ls ⊆ ls')
    (hdb : db.Grows db') {deviceCode : Str} {stage : Stage} (h : stage.Polls C ls db deviceCode) :
    stage.Polls C ls' db' deviceCode := by
  cases stage with
  | pollConnect | pollGrant => exact h
  | pollNow => exact ⟨hdb.knows h.1, h.2⟩
  | pollTenant => exact ⟨hdb.knows h.1, h.2⟩
  | pollDevice => exact Db.Leads.mono hdb h
  | done => exact fun token htoken => (h token htoken).mono hls hdb
  | _ => exact h.elim

theorem Enrolling.polls_next {ls : List HubEvent} {pool : Pool Stage World}
    {stage stage' : Stage} {e : Program.Exchange Reply} {w' : World} (h : Enrolling C ls pool)
    {deviceCode : Str} (hpolls : stage.Polls C ls pool.state.db deviceCode)
    (hnext : stage.Next C e stage') (hexec : Exec C pool.state e w') :
    stage'.Polls C ls w'.db deviceCode := by
  have hwf := h.approving.wellFormed
  cases hnext with
  | ends _ _ hnot => exact fun token htoken => absurd ⟨token, htoken⟩ hnot
  | pollConnected => exact hpolls
  | pollFound =>
    obtain ⟨hok, rfl⟩ := hexec.sql_ok
    obtain ⟨hgrant, hcode⟩ := hwf.findGrantByDeviceCode.1 (Except.ok.inj hok)
    exact ⟨⟨_, hgrant, .refl _⟩, hcode.trans hpolls⟩
  | pollTimed _ happroved =>
    rw [hexec.db_eq (by intro q h; cases h)]
    exact ⟨hpolls.1, hpolls.2, happroved⟩
  | pollTenantFound =>
    obtain ⟨hok, rfl⟩ := hexec.sql_ok
    obtain ⟨⟨row, hrow, hafter⟩, hcode, happroved⟩ := hpolls
    obtain ⟨htenant, hid⟩ := hwf.findTenantById.1 (Except.ok.inj hok)
    exact ⟨row, hrow, hafter.deviceCode_eq.trans hcode, hafter.approved _ happroved, _, htenant,
      hid.trans hafter.tenantId_eq.symm, rfl⟩
  | @pollIssued tenant deviceId device pem hpem =>
    obtain ⟨hok, rfl⟩ := hexec.sql_ok
    obtain ⟨grant, hgrant, hcode, happroved, t, ht, htid, hslug⟩ := hpolls
    obtain ⟨hdevice, hid⟩ := hwf.findDeviceById.1 (Except.ok.inj hok)
    intro token htoken
    obtain rfl := Body.token.inj htoken
    -- the approved device is the one that was found
    obtain ⟨hsubmitted, d, hd, hdid, hmember⟩ := h.attributed.approved grant hgrant deviceId happroved
    obtain rfl := hwf.deviceId.eq_of_key_eq hd hdevice (hdid.trans hid.symm)
    obtain ⟨d', hd', hdid', hkey⟩ := h.approving.linked grant hgrant deviceId happroved
    obtain rfl := hwf.deviceId.eq_of_key_eq hd' hd (hdid'.trans hid.symm)
    refine ⟨grant, hgrant, t, ht, d', hd', ?_⟩
    exact {
      deviceCode_eq := hcode
      tenantId_eq := htid.symm
      slug_eq := hslug
      approved := by rw [happroved, hdid]
      deviceId_eq := hdid
      member := hmember.trans htid.symm
      key := hkey
      signed := by
        rcases h.attributed.filed d' hd' with ⟨hnone, -⟩ | ⟨pem', serial, hpem', -, hsigned⟩
        · rw [hnone] at hpem
          cases hpem
        · rw [hpem] at hpem'
          obtain rfl := Option.some.inj hpem'
          exact ⟨serial, hsigned⟩
      submitted := hsubmitted
      status_eq := ⟨rfl, rfl⟩ }
  | _ => exact hpolls.elim

/-- What is known, and where the poll of a process is. -/
def Polling (C : Crypto) (i : ℕ) (deviceCode : Str) (ls : List HubEvent) (pool : Pool Stage World) :
    Prop :=
  Enrolling C ls pool ∧ ∃ stage, pool.threads i = some stage ∧
    stage.Polls C ls pool.state.db deviceCode

theorem Polling.step {i : ℕ} {deviceCode : Str} {ls : List HubEvent} {pool pool' : Pool Stage World}
    {l : HubEvent} (h : Polling C i deviceCode ls pool)
    (hstep : HubStep C (Stage.Next C) Stage.Starts pool l pool') :
    Polling C i deviceCode (ls ++ [l]) pool' := by
  obtain ⟨henrolling, stage, hi, hpolls⟩ := h
  obtain ⟨henrolling', hgrows⟩ := henrolling.step hstep
  have hsub : ls ⊆ ls ++ [l] := List.subset_append_left _ _
  refine ⟨henrolling', ?_⟩
  cases hstep with
  | elsewhere threads he => exact ⟨stage, hi, hpolls.mono hsub hgrows⟩
  | handler hstep =>
    cases hstep with
    | @start threads w j stage' hfree hstart =>
      have hne : i ≠ j := by
        rintro rfl
        cases hfree.symm.trans hi
      exact ⟨stage, (Function.update_of_ne hne _ _).trans hi, hpolls.mono hsub hgrows⟩
    | @call threads w w' j stage₁ stage₂ e hj hnext hexec =>
      by_cases hij : i = j
      · subst hij
        obtain rfl : stage = stage₁ := Option.some.inj (hi.symm.trans hj)
        exact ⟨stage₂, Function.update_self i _ _,
          (henrolling.polls_next hpolls hnext hexec).mono hsub (.refl _)⟩
      · exact ⟨stage, (Function.update_of_ne hij _ _).trans hi, hpolls.mono hsub hgrows⟩

theorem Polling.run {i : ℕ} {deviceCode : Str} {ls₀ ls : List HubEvent} {pool pool' : Pool Stage World}
    (h : Polling C i deviceCode ls₀ pool) (run : StageRun C pool ls pool') :
    Polling C i deviceCode (ls₀ ++ ls) pool' := by
  refine Trace.Run.history (I := fun ls p => Polling C i deviceCode (ls₀ ++ ls) p) ?_ ?_ run
  · rwa [List.append_nil]
  · intro ls p l p' _ hp hstep
    rw [← List.append_assoc]
    exact hp.step hstep

theorem Stage.eq_pollConnect {stage : Stage} {deviceCode : Str}
    (h : stage.program C = handleDeviceToken C (.ok deviceCode)) : stage = .pollConnect deviceCode := by
  have hcontinue : ∀ {k k' : Except Error Unit → Handler Rendered},
      (Program.call Call.connect k : Handler Rendered) = .call .connect k' →
        k (.ok ()) = k' (.ok ()) := by
    intro k k' hk
    exact congrFun (eq_of_heq (Program.call.inj hk).2) _
  cases stage with
  | pollConnect code =>
    have hcode := (Program.call.inj (hcontinue h)).1
    cases hcode
    rfl
  | codeConnect =>
    have hcode := (Program.call.inj (hcontinue h)).1
    cases hcode
  | verifyConnect =>
    have hcode := (Program.call.inj (hcontinue h)).1
    cases hcode
  | done => cases h
  | _ =>
    have hcode := (Program.call.inj h).1
    cases hcode

theorem Polling.enrolled {i : ℕ} {deviceCode : Str} {ls₀ ls : List HubEvent} {P P' : Pool Stage World}
    {status : ℕ} {token : TokenSuccessResponse} (h : Enrolling C ls₀ P)
    (hpoll : (P.map (Stage.program C)).threads i = some (handleDeviceToken C (.ok deviceCode)))
    (run : StageRun C P ls P')
    (htoken : (P'.map (Stage.program C)).threads i = some (.pure ⟨status, .token token⟩)) :
    Enrolled C (ls₀ ++ ls) P'.state.db deviceCode token := by
  obtain ⟨stage₁, hstage₁, hprogram₁⟩ := Option.map_eq_some_iff.1 hpoll
  obtain rfl := Stage.eq_pollConnect hprogram₁
  have hstart : Polling C i deviceCode ls₀ P := ⟨h, _, hstage₁, rfl⟩
  obtain ⟨-, stage₂, hstage₂, hpolls⟩ := hstart.run run
  obtain ⟨stage₃, hstage₃, hprogram₃⟩ := Option.map_eq_some_iff.1 htoken
  obtain rfl := Stage.eq_done hprogram₃
  obtain rfl := Option.some.inj (hstage₂.symm.trans hstage₃)
  exact hpolls token rfl

/-- **A poll returns a certificate that was signed for the key of its grant, for the tenant of its
grant, and after the user code of the grant was submitted in time**, whatever else goes on in the
hub. -/
theorem enrolled_of_token {w₀ : World} (hdb : w₀.db = {}) {ls₁ ls₂ : List HubEvent}
    {pool₁ pool₂ : Pool (Handler Rendered) World} {i : ℕ} {deviceCode : Str} {status : ℕ}
    {token : TokenSuccessResponse} (run₁ : HubRun C ⟨fun _ => none, w₀⟩ ls₁ pool₁)
    (hpoll : pool₁.threads i = some (handleDeviceToken C (.ok deviceCode)))
    (run₂ : HubRun C pool₁ ls₂ pool₂)
    (htoken : pool₂.threads i = some (.pure ⟨status, .token token⟩)) :
    Enrolled C (ls₁ ++ ls₂) pool₂.state.db deviceCode token := by
  obtain ⟨P₁, rfl, run₁'⟩ := HubRun.exists_stageRun (P := ⟨fun _ => none, w₀⟩) run₁
  obtain ⟨P₂, rfl, run₂'⟩ := run₂.exists_stageRun
  have h₁ := ((Enrolling.init (C := C) hdb).run run₁').1
  rw [List.nil_append] at h₁
  exact Polling.enrolled h₁ hpoll run₂' htoken

/-! ### A hub from its first tenant on -/

theorem elsewhere_exampleWorld : Elsewhere {} exampleWorld :=
  .sql {} (q := .createTenant "acme".toList) rfl

/-- A device asks for a grant, a human approves it, and the device is about to poll. -/
def exampleHandlers : List (Pool.Label (Program.Exchange Reply)) :=
  ((.start 0 :: exampleCode.1.map (.call 0)) ++
    (.start 1 :: (exampleSubmit.eval (exampleAnswer "01".toList) exampleGranted).1.map (.call 1))) ++
    [.start 2]

/-- The same in the hub, after the operator created the tenant. -/
def exampleEvents : List HubEvent := .elsewhere :: exampleHandlers.map .handler

theorem run_exampleEvents : ∃ threads, HubRun exampleCrypto ⟨fun _ => none, {}⟩ exampleEvents
    ⟨threads, exampleApproved⟩ ∧
      threads 2 = some (handleDeviceToken exampleCrypto (.ok "dc".toList)) := by
  have run₁ : Pool.Run Program.Next (Exec exampleCrypto) (Starts exampleCrypto)
      ⟨fun _ => none, exampleWorld⟩ _ _ :=
    .of_returns (i := 0) (Program.returns_eval (exec_exampleAnswer []) (handleDeviceCode
      exampleCrypto (.ok ("acme".toList, "key".toList)) "dc".toList "uc".toList) _) rfl
      (.inl ⟨_, _, _, rfl⟩)
  have run₂ := run₁.append (Pool.Run.of_returns (i := 1) (Program.returns_eval
    (exec_exampleAnswer "01".toList) exampleSubmit _) (Function.update_of_ne Nat.one_ne_zero _ _)
    (.inr (.inr ⟨_, rfl⟩)))
  have run₃ := run₂.append (Trace.Run.single (Pool.Step.start (i := 2)
    (p := handleDeviceToken exampleCrypto (.ok "dc".toList)) _ rfl (.inr (.inl ⟨_, rfl⟩))))
  exact ⟨_, .cons (.elsewhere _ elsewhere_exampleWorld)
    (run₃.map HubEvent.handler fun _ _ _ h => HubStep.handler h), Function.update_self 2 _ _⟩

/-- The certificate of the device. -/
def exampleCertificate : TokenSuccessResponse :=
  ⟨"approved".toList, "acme".toList, 1, "01".toList, "root".toList⟩

/-- The device polls. -/
def examplePolled : List (Program.Exchange Reply) × Rendered × World :=
  (handleDeviceToken exampleCrypto (.ok "dc".toList)).eval (exampleAnswer []) exampleApproved

theorem run_examplePolled {threads : ℕ → Option (Handler Rendered)}
    (hpoll : threads 2 = some (handleDeviceToken exampleCrypto (.ok "dc".toList))) :
    HubRun exampleCrypto ⟨threads, exampleApproved⟩ (examplePolled.1.map fun e => .handler (.call 2 e))
      ⟨Function.update threads 2 (some (.pure ⟨200, .token exampleCertificate⟩)),
        examplePolled.2.2⟩ := by
  have hreturns := Program.returns_eval (exec_exampleAnswer [])
    (handleDeviceToken exampleCrypto (.ok "dc".toList)) exampleApproved
  have hresponse : examplePolled.2.1 = ⟨200, .token exampleCertificate⟩ := by decide
  rw [examplePolled] at hresponse
  rw [hresponse] at hreturns
  have run₁ : Pool.Run Program.Next (Exec exampleCrypto) (Starts exampleCrypto) _ _ _ :=
    .of_program (i := 2) hreturns hpoll
  have run₂ : HubRun exampleCrypto _ _ _ := run₁.map .handler fun _ _ _ h => .handler h
  rwa [List.map_map] at run₂

/-- The certificate that the device gets. -/
theorem enrolled_of_token_example : ∃ ls pool,
    HubRun exampleCrypto ⟨fun _ => none, {}⟩ ls pool ∧
      Enrolled exampleCrypto ls pool.state.db "dc".toList exampleCertificate := by
  obtain ⟨threads, run₁, hpoll⟩ := run_exampleEvents
  have run₂ := run_examplePolled hpoll
  exact ⟨_, _, run₁.append run₂, enrolled_of_token rfl run₁ hpoll run₂ rfl⟩

end Hub

end Wkp
