import Wkp.Hub.Stages

/-!
# Approvals of grants

Any number of requests for grants, polls and submissions of user codes, call by call in any order.

* `Hub.Starts` : the handlers of enrollment.
* `Hub.Db.Extends` : a grant stays approved, a device keeps its key, and an issued device stays
  issued.
* `Hub.Approving` : what the submissions know of the tables, and that they know different devices.
* `Hub.Approving.step` : **every call of every handler keeps this, and only extends the tables.**
-/

namespace Wkp

open Rust

namespace Hub

variable (C : Crypto)

/-- A handler of enrollment. -/
def Starts (p : Handler Rendered) : Prop :=
  (∃ body deviceCode userCode, p = handleDeviceCode C body deviceCode userCode) ∨
  (∃ body, p = handleDeviceToken C body) ∨ ∃ userCode, p = handleVerifySubmit C userCode

/-- The first stage of a handler. -/
def Stage.Starts : Stage → Prop
  | codeConnect _ _ _ _ | pollConnect _ | verifyConnect _ => True
  | done response => ¬ response.IsToken
  | _ => False

theorem Starts.exists_stage {p : Handler Rendered} (h : Starts C p) :
    ∃ stage : Stage, p = stage.program C ∧ stage.Starts := by
  rcases h with ⟨body, deviceCode, userCode, rfl⟩ | ⟨body, rfl⟩ | ⟨userCode, rfl⟩
  · rcases body with e | ⟨tenantSlug, csrPem⟩
    · exact ⟨.done _, rfl, by rintro ⟨t, ht⟩; cases ht⟩
    · unfold handleDeviceCode
      dsimp only
      split_ifs
      · exact ⟨.codeConnect tenantSlug csrPem deviceCode userCode, rfl, trivial⟩
      · exact ⟨.done _, rfl, by rintro ⟨t, ht⟩; cases ht⟩
  · cases body with
    | error e => exact ⟨.done _, rfl, by rintro ⟨t, ht⟩; cases ht⟩
    | ok deviceCode => exact ⟨.pollConnect deviceCode, rfl, trivial⟩
  · cases userCode with
    | none => exact ⟨.done _, rfl, by rintro ⟨t, ht⟩; cases ht⟩
    | some userCode => exact ⟨.verifyConnect userCode, rfl, trivial⟩

/-! ### Later tables -/

/-- The row of the grant at a later time. -/
structure DeviceGrant.After (grant row : DeviceGrant) : Prop where
  /-- Nothing changes but the approval. -/
  same : { row with approvedDeviceId := none } = { grant with approvedDeviceId := none }
  /-- An approval stays. -/
  approved : ∀ deviceId, grant.approvedDeviceId = some deviceId →
    row.approvedDeviceId = some deviceId

theorem DeviceGrant.After.refl (grant : DeviceGrant) : grant.After grant := ⟨rfl, fun _ h => h⟩

theorem DeviceGrant.After.trans {g₁ g₂ g₃ : DeviceGrant} (h : g₁.After g₂) (h' : g₂.After g₃) :
    g₁.After g₃ := ⟨h'.same.trans h.same, fun d hd => h'.approved d (h.approved d hd)⟩

theorem DeviceGrant.After.id_eq {grant row : DeviceGrant} (h : grant.After row) :
    row.id = grant.id := by
  have hfield := congrArg DeviceGrant.id h.same
  exact hfield

theorem DeviceGrant.After.csrPem_eq {grant row : DeviceGrant} (h : grant.After row) :
    row.csrPem = grant.csrPem := by
  have hfield := congrArg DeviceGrant.csrPem h.same
  exact hfield

theorem DeviceGrant.After.deviceCode_eq {grant row : DeviceGrant} (h : grant.After row) :
    row.deviceCode = grant.deviceCode := by
  have hfield := congrArg DeviceGrant.deviceCode h.same
  exact hfield

theorem DeviceGrant.After.userCode_eq {grant row : DeviceGrant} (h : grant.After row) :
    row.userCode = grant.userCode := by
  have hfield := congrArg DeviceGrant.userCode h.same
  exact hfield

theorem DeviceGrant.After.isExpired_eq {grant row : DeviceGrant} (h : grant.After row) :
    row.isExpired = grant.isExpired := by
  have hfield := congrArg DeviceGrant.isExpired h.same
  exact hfield

/-- The row of the device at a later time. -/
structure Device.After (device row : Device) : Prop where
  /-- The id stays. -/
  id_eq : row.id = device.id
  /-- The key stays. -/
  publicKey_eq : row.publicKey = device.publicKey
  /-- An issued device stays issued. -/
  issued : device.certificatePem.isSome = true → row.certificatePem.isSome = true

theorem Device.After.refl (device : Device) : device.After device := ⟨rfl, rfl, fun h => h⟩

theorem Device.After.trans {d₁ d₂ d₃ : Device} (h : d₁.After d₂) (h' : d₂.After d₃) :
    d₁.After d₃ :=
  ⟨h'.id_eq.trans h.id_eq, h'.publicKey_eq.trans h.publicKey_eq, fun hd => h'.issued (h.issued hd)⟩

/-- A grant stays approved, a device keeps its key, and an issued device stays issued. -/
structure Db.Extends (db db' : Db) : Prop where
  /-- The grants. -/
  grants : ∀ grant ∈ db.grants, ∃ row ∈ db'.grants, grant.After row
  /-- The devices. -/
  devices : ∀ device ∈ db.devices, ∃ row ∈ db'.devices, device.After row

namespace Db

theorem Extends.refl (db : Db) : db.Extends db :=
  ⟨fun g hg => ⟨g, hg, .refl g⟩, fun d hd => ⟨d, hd, .refl d⟩⟩

theorem Extends.trans {db₁ db₂ db₃ : Db} (h : db₁.Extends db₂) (h' : db₂.Extends db₃) :
    db₁.Extends db₃ where
  grants g hg := by
    obtain ⟨g', hg', hafter⟩ := h.grants g hg
    obtain ⟨g'', hg'', hafter'⟩ := h'.grants g' hg'
    exact ⟨g'', hg'', hafter.trans hafter'⟩
  devices d hd := by
    obtain ⟨d', hd', hafter⟩ := h.devices d hd
    obtain ⟨d'', hd'', hafter'⟩ := h'.devices d' hd'
    exact ⟨d'', hd'', hafter.trans hafter'⟩

theorem SameRows.extends {db db' : Db} (h : db.SameRows db') : db.Extends db' where
  grants g hg := ⟨g, by rwa [h.grants], .refl g⟩
  devices d hd := ⟨d, by rwa [h.devices], .refl d⟩

end Db

/-! ### What the submissions know -/

/-- The public key of a signing request, as it is registered. -/
def KeyOf (csrPem publicKey : Str) : Prop :=
  ∃ raw, C.csrPublicKey csrPem = some raw ∧ C.opensshPublicKey raw = .ok publicKey

variable {C} in
theorem KeyOf.unique {csrPem k k' : Str} (h : KeyOf C csrPem k) (h' : KeyOf C csrPem k') :
    k = k' := by
  obtain ⟨raw, hraw, hk⟩ := h
  obtain ⟨raw', hraw', hk'⟩ := h'
  obtain rfl : raw = raw' := Option.some.inj (hraw.symm.trans hraw')
  exact Except.ok.inj (hk.symm.trans hk')

/-- The grant was read from the tables. -/
def Db.Knows (db : Db) (grant : DeviceGrant) : Prop := ∃ row ∈ db.grants, grant.After row

/-- The device was registered. -/
def Db.Registered (db : Db) (device : Device) : Prop := ∃ row ∈ db.devices, device.After row

theorem Db.Extends.knows {db db' : Db} (h : db.Extends db') {grant : DeviceGrant}
    (hg : db.Knows grant) : db'.Knows grant := by
  obtain ⟨row, hrow, hafter⟩ := hg
  obtain ⟨row', hrow', hafter'⟩ := h.grants row hrow
  exact ⟨row', hrow', hafter.trans hafter'⟩

theorem Db.Extends.registered {db db' : Db} (h : db.Extends db') {device : Device}
    (hd : db.Registered device) : db'.Registered device := by
  obtain ⟨row, hrow, hafter⟩ := hd
  obtain ⟨row', hrow', hafter'⟩ := h.devices row hrow
  exact ⟨row', hrow', hafter.trans hafter'⟩

/-- What a submission knows of the tables. -/
def Stage.Holds (db : Db) : Stage → Prop
  | verifyNow grant | check grant _ | sign grant => db.Knows grant
  | refind grant _ publicKey deviceId => db.Knows grant ∧ KeyOf C grant.csrPem publicKey ∧
      grant.approvedDeviceId = some deviceId
  | register grant _ publicKey => db.Knows grant ∧ KeyOf C grant.csrPem publicKey
  | record grant _ device => db.Knows grant ∧ KeyOf C grant.csrPem device.publicKey ∧
      db.Registered device
  | issue _ device => db.Registered device
  | _ => True

variable {C}

theorem Stage.Holds.mono {db db' : Db} (h : db.Extends db') {stage : Stage}
    (hs : stage.Holds C db) : stage.Holds C db' := by
  cases stage with
  | verifyNow | check | sign => exact h.knows hs
  | refind => exact ⟨h.knows hs.1, hs.2⟩
  | register => exact ⟨h.knows hs.1, hs.2⟩
  | record => exact ⟨h.knows hs.1, hs.2.1, h.registered hs.2.2⟩
  | issue => exact h.registered hs
  | _ => trivial

/-! ### Every call keeps what the submissions know -/

variable (C) in
/-- An approved grant has a device with the key of its signing request. -/
def Db.Linked (db : Db) : Prop :=
  ∀ grant ∈ db.grants, ∀ deviceId, grant.approvedDeviceId = some deviceId →
    ∃ device ∈ db.devices, device.id = deviceId ∧ KeyOf C grant.csrPem device.publicKey

variable (C) in
/-- What the submissions know of the tables, and that they know different devices. -/
structure Approving (pool : Pool Stage World) : Prop where
  /-- The constraints of the schema hold. -/
  wellFormed : pool.state.db.WellFormed
  /-- An approved grant has a device with the key of its signing request. -/
  linked : pool.state.db.Linked C
  /-- What each submission knows. -/
  holds : ∀ i stage, pool.threads i = some stage → stage.Holds C pool.state.db
  /-- A registered device that is not recorded yet is in no grant. -/
  unrecorded : ∀ i grant cert device, pool.threads i = some (.record grant cert device) →
    ∀ row ∈ pool.state.db.grants, row.approvedDeviceId ≠ some device.id
  /-- No two submissions record one device. -/
  apart : ∀ i j grant cert device grant' cert' device', i ≠ j →
    pool.threads i = some (.record grant cert device) →
    pool.threads j = some (.record grant' cert' device') → device.id ≠ device'.id

/-- A transition whose call changes a row. -/
inductive Stage.Writes : Stage → Program.Exchange Reply → Stage → Prop
  | inserted {tenantId : ℕ} {csrPem deviceCode userCode : Str} {expiresAt : ℕ}
      {grant : DeviceGrant} {response : Rendered} (h : ¬ response.IsToken) :
      Writes (codeInsert tenantId csrPem deviceCode userCode expiresAt)
        ⟨.sql (.createDeviceGrant tenantId csrPem deviceCode userCode expiresAt), .ok grant⟩
        (done response)
  | registered {grant : DeviceGrant} {cert : SignedDeviceCert} {publicKey : Str} {device : Device} :
      Writes (register grant cert publicKey)
        ⟨.sql (.registerDevice grant.tenantId publicKey), .ok device⟩ (record grant cert device)
  | recorded {grant : DeviceGrant} {cert : SignedDeviceCert} {device : Device} :
      Writes (record grant cert device) ⟨.sql (.recordApprovedDevice device.id grant.id), .ok ()⟩
        (issue cert device)
  | issued {cert : SignedDeviceCert} {device : Device} :
      Writes (issue cert device)
        ⟨.sql (.issueDeviceCertificate device.id cert.certificatePem cert.serialHex cert.notBefore
          cert.notAfter), .ok ()⟩ (done .approved)

theorem Stage.Next.quiet_or_writes {stage stage' : Stage} {e : Program.Exchange Reply}
    (h : stage.Next C e stage') : Quiet e ∨ stage.Writes e stage' := by
  cases h with
  | ends _ hquiet => exact .inl hquiet
  | codeInserted h => exact .inr (.inserted h)
  | registered => exact .inr .registered
  | recorded => exact .inr .recorded
  | issued => exact .inr .issued
  | codeConnected | pollConnected | verifyConnected => exact .inl (quiet_connect _)
  | codeTimed | pollTimed | verifyTimed | verifyTimedApproved => exact .inl (quiet_now _)
  | signed | signedApproved => exact .inl (quiet_sign _ _)
  | _ => exact .inl (quiet_query rfl _)

/-! #### How the tables change -/

theorem extends_insert {db : Db} {grant : DeviceGrant} {n : ℕ} :
    db.Extends { db with grants := db.grants ++ [grant], nextGrantId := n } where
  grants g hg := ⟨g, List.mem_append_left _ hg, .refl g⟩
  devices d hd := ⟨d, hd, .refl d⟩

theorem extends_register {db : Db} {device : Device} {n : ℕ} :
    db.Extends { db with devices := db.devices ++ [device], nextDeviceId := n } where
  grants g hg := ⟨g, hg, .refl g⟩
  devices d hd := ⟨d, List.mem_append_left _ hd, .refl d⟩

theorem extends_issue {db : Db} {deviceId issuedAt expiresAt : ℕ} {pem serial : Str} :
    db.Extends { db with devices := db.devices.map fun d => if d.id = deviceId then { d with
      certificatePem := some pem
      certSerial := some serial
      certIssuedAt := some issuedAt
      certExpiresAt := some expiresAt } else d } where
  grants g hg := ⟨g, hg, .refl g⟩
  devices d hd := by
    refine ⟨_, List.mem_map_of_mem hd, ?_⟩
    split_ifs
    · exact ⟨rfl, rfl, fun _ => rfl⟩
    · exact .refl d

theorem extends_record {db : Db} {deviceId grantId : ℕ}
    (h : ∀ g ∈ db.grants, g.id = grantId → g.approvedDeviceId = none) :
    db.Extends { db with grants := db.grants.map fun g =>
      if g.id = grantId then { g with approvedDeviceId := some deviceId } else g } where
  grants g hg := by
    refine ⟨_, List.mem_map_of_mem hg, ?_⟩
    split_ifs with hid
    · refine ⟨rfl, fun d hd => ?_⟩
      rw [h g hg hid] at hd
      cases hd
    · exact .refl g
  devices d hd := ⟨d, hd, .refl d⟩

/-- The grant of a submission that records its device is not approved yet. -/
theorem Approving.not_approved {pool : Pool Stage World} (h : Approving C pool) {i : ℕ}
    {grant : DeviceGrant} {cert : SignedDeviceCert} {device : Device}
    (hi : pool.threads i = some (.record grant cert device)) :
    ∀ g ∈ pool.state.db.grants, g.id = grant.id → g.approvedDeviceId = none := by
  intro g hg hid
  obtain ⟨⟨row, hrow, hafter⟩, hkey, d, hd, hdevice⟩ := h.holds i _ hi
  obtain rfl : g = row :=
    h.wellFormed.grantId.eq_of_key_eq hg hrow (hid.trans hafter.id_eq.symm)
  by_contra hne
  obtain ⟨deviceId, happroved⟩ := Option.ne_none_iff_exists'.1 hne
  obtain ⟨d', hd', hid', hkey'⟩ := h.linked g hg deviceId happroved
  -- the device of the approval has the same key, so it is the one that is not recorded yet
  rw [hafter.csrPem_eq] at hkey'
  have hsame : d' = d := h.wellFormed.publicKey.eq_of_key_eq hd' hd
    ((hkey'.unique hkey).trans hdevice.publicKey_eq.symm)
  refine h.unrecorded i grant cert device hi g hg ?_
  rw [happroved, ← hid', hsame, hdevice.id_eq]

theorem Approving.extends {pool : Pool Stage World} (h : Approving C pool) {i : ℕ}
    {stage stage' : Stage} {e : Program.Exchange Reply} {w' : World}
    (hi : pool.threads i = some stage) (hnext : stage.Next C e stage')
    (hexec : Exec C pool.state e w') : pool.state.db.Extends w'.db := by
  rcases hnext.quiet_or_writes with hquiet | hwrites
  · exact (hexec.sameRows hquiet).extends
  · cases hwrites with
    | inserted =>
      obtain ⟨hok, rfl⟩ := hexec.sql_ok
      dsimp only [Statement.run] at hok ⊢
      rw [(Db.createDeviceGrant_ok hok).2]
      exact extends_insert
    | registered =>
      obtain ⟨hok, rfl⟩ := hexec.sql_ok
      dsimp only [Statement.run] at hok ⊢
      rw [(Db.registerDevice_ok hok).2.2]
      exact extends_register
    | recorded =>
      obtain ⟨hok, rfl⟩ := hexec.sql_ok
      dsimp only [Statement.run] at hok ⊢
      rw [(Db.recordApprovedDevice_ok hok).2]
      exact extends_record (h.not_approved hi)
    | issued =>
      obtain ⟨hok, rfl⟩ := hexec.sql_ok
      dsimp only [Statement.run] at hok ⊢
      rw [(Db.issueDeviceCertificate_ok hok).2]
      exact extends_issue

/-! #### What the next stage knows -/

theorem Approving.holds_next {pool : Pool Stage World} (h : Approving C pool) {i : ℕ}
    {stage stage' : Stage} {e : Program.Exchange Reply} {w' : World}
    (hi : pool.threads i = some stage) (hnext : stage.Next C e stage')
    (hexec : Exec C pool.state e w') : stage'.Holds C w'.db := by
  have hext := h.extends hi hnext hexec
  have hs := (h.holds i stage hi).mono hext
  cases hnext with
  | verifyFound =>
    obtain ⟨hok, rfl⟩ := hexec.sql_ok
    have hfound := h.wellFormed.findGrantByUserCode.1 (Except.ok.inj hok)
    exact ⟨_, hfound.1, .refl _⟩
  | verifyTimed | verifyTimedApproved | checked => exact hs
  | signed hkey =>
    obtain ⟨hraw, -, rfl⟩ := hexec.sign_ok
    exact ⟨hs, _, hraw, hkey⟩
  | signedApproved hkey happroved =>
    obtain ⟨hraw, -, rfl⟩ := hexec.sign_ok
    exact ⟨hs, ⟨_, hraw, hkey⟩, happroved⟩
  | refound =>
    obtain ⟨hok, rfl⟩ := hexec.sql_ok
    have hfound := h.wellFormed.findDeviceById.1 (Except.ok.inj hok)
    exact ⟨_, hfound.1, .refl _⟩
  | lost => exact ⟨hs.1, hs.2.1⟩
  | registered =>
    obtain ⟨hok, rfl⟩ := hexec.sql_ok
    obtain ⟨hdevice, -, hdb⟩ := Db.registerDevice_ok hok
    refine ⟨hs.1, ?_, ?_⟩
    · rw [hdevice]
      exact hs.2
    · dsimp only [Statement.run]
      rw [hdb]
      exact ⟨_, List.mem_append_right _ (List.mem_singleton_self _), .refl _⟩
  | recorded => exact hs.2.2
  | _ => trivial

theorem Approving.linked_next {pool : Pool Stage World} (h : Approving C pool) {i : ℕ}
    {stage stage' : Stage} {e : Program.Exchange Reply} {w' : World}
    (hi : pool.threads i = some stage) (hnext : stage.Next C e stage')
    (hexec : Exec C pool.state e w') : w'.db.Linked C := by
  have hext := h.extends hi hnext hexec
  -- a device of the tables before is there afterwards, with its id and its key
  have hkeep : ∀ {deviceId : ℕ} {csrPem : Str}, (∃ device ∈ pool.state.db.devices,
      device.id = deviceId ∧ KeyOf C csrPem device.publicKey) →
      ∃ device ∈ w'.db.devices, device.id = deviceId ∧ KeyOf C csrPem device.publicKey := by
    rintro deviceId csrPem ⟨d, hd, hid, hkey⟩
    obtain ⟨d', hd', hafter⟩ := hext.devices d hd
    exact ⟨d', hd', hafter.id_eq.trans hid, by rwa [hafter.publicKey_eq]⟩
  rcases hnext.quiet_or_writes with hquiet | hwrites
  · intro g hg deviceId happroved
    rw [(hexec.sameRows hquiet).grants] at hg
    exact hkeep (h.linked g hg deviceId happroved)
  · cases hwrites with
    | inserted =>
      obtain ⟨hok, rfl⟩ := hexec.sql_ok
      dsimp only [Statement.run] at hok hkeep ⊢
      obtain ⟨hgrant, hdb⟩ := Db.createDeviceGrant_ok hok
      rw [hdb] at hkeep ⊢
      intro g hg deviceId happroved
      rcases List.mem_append.1 hg with hg | hg
      · exact hkeep (h.linked g hg deviceId happroved)
      · rw [List.mem_singleton.1 hg, hgrant] at happroved
        cases happroved
    | registered =>
      obtain ⟨hok, rfl⟩ := hexec.sql_ok
      dsimp only [Statement.run] at hok hkeep ⊢
      rw [(Db.registerDevice_ok hok).2.2] at hkeep ⊢
      intro g hg deviceId happroved
      exact hkeep (h.linked g hg deviceId happroved)
    | @recorded grant cert device =>
      obtain ⟨hknows, hkey, hregistered⟩ := h.holds i _ hi
      obtain ⟨hok, rfl⟩ := hexec.sql_ok
      dsimp only [Statement.run] at hok hkeep ⊢
      rw [(Db.recordApprovedDevice_ok hok).2] at hkeep ⊢
      intro g hg deviceId happroved
      obtain ⟨g₀, hg₀, rfl⟩ := List.mem_map.1 hg
      split_ifs at happroved ⊢ with hid
      · obtain rfl := Option.some.inj happroved
        obtain ⟨row, hrow, hafter⟩ := hknows
        obtain rfl : g₀ = row :=
          h.wellFormed.grantId.eq_of_key_eq hg₀ hrow (hid.trans hafter.id_eq.symm)
        obtain ⟨d, hd, hdevice⟩ := hregistered
        refine ⟨d, hd, hdevice.id_eq, ?_⟩
        rwa [hdevice.publicKey_eq, hafter.csrPem_eq]
      · exact hkeep (h.linked g₀ hg₀ deviceId happroved)
    | issued =>
      obtain ⟨hok, rfl⟩ := hexec.sql_ok
      dsimp only [Statement.run] at hok hkeep ⊢
      rw [(Db.issueDeviceCertificate_ok hok).2] at hkeep ⊢
      intro g hg deviceId happroved
      exact hkeep (h.linked g hg deviceId happroved)

theorem Stage.Next.to_record {stage : Stage} {e : Program.Exchange Reply} {grant : DeviceGrant}
    {cert : SignedDeviceCert} {device : Device}
    (h : stage.Next C e (.record grant cert device)) : ∃ publicKey,
      stage = .register grant cert publicKey ∧
        e = ⟨.sql (.registerDevice grant.tenantId publicKey), .ok device⟩ := by
  cases h with
  | registered => exact ⟨_, rfl, rfl⟩

/-- A device of the tables has a number that the sequence has passed. -/
theorem Db.Registered.id_lt {db : Db} (hdb : db.WellFormed) {device : Device}
    (h : db.Registered device) : device.id < db.nextDeviceId := by
  obtain ⟨row, hrow, hafter⟩ := h
  rw [← hafter.id_eq]
  exact hdb.nextDeviceId row hrow

/-- A device that another submission has registered stays out of the grants. -/
theorem Approving.unrecorded_next {pool : Pool Stage World} (h : Approving C pool) {i j : ℕ}
    {stage stage' : Stage} {e : Program.Exchange Reply} {w' : World}
    (hi : pool.threads i = some stage) (hnext : stage.Next C e stage')
    (hexec : Exec C pool.state e w') (hj : j ≠ i) {grant : DeviceGrant} {cert : SignedDeviceCert}
    {device : Device} (hthread : pool.threads j = some (.record grant cert device)) :
    ∀ row ∈ w'.db.grants, row.approvedDeviceId ≠ some device.id := by
  have hbefore := h.unrecorded j grant cert device hthread
  rcases hnext.quiet_or_writes with hquiet | hwrites
  · rw [(hexec.sameRows hquiet).grants]
    exact hbefore
  · -- only a recording writes into grants that exist, and that of another submission is of another
    -- device
    cases hwrites with
    | inserted =>
      obtain ⟨hok, rfl⟩ := hexec.sql_ok
      dsimp only [Statement.run] at hok ⊢
      obtain ⟨hgrant, hdb⟩ := Db.createDeviceGrant_ok hok
      rw [hdb]
      intro row hrow
      rcases List.mem_append.1 hrow with hrow | hrow
      · exact hbefore row hrow
      · rw [List.mem_singleton.1 hrow, hgrant]
        intro heq
        cases heq
    | registered =>
      obtain ⟨hok, rfl⟩ := hexec.sql_ok
      dsimp only [Statement.run] at hok ⊢
      rw [(Db.registerDevice_ok hok).2.2]
      exact hbefore
    | @recorded grant' cert' device' =>
      obtain ⟨hok, rfl⟩ := hexec.sql_ok
      dsimp only [Statement.run] at hok ⊢
      rw [(Db.recordApprovedDevice_ok hok).2]
      intro row hrow
      obtain ⟨row₀, hrow₀, rfl⟩ := List.mem_map.1 hrow
      split_ifs
      · intro heq
        exact h.apart j i _ _ _ _ _ _ hj hthread hi (Option.some.inj heq).symm
      · exact hbefore row₀ hrow₀
    | issued =>
      obtain ⟨hok, rfl⟩ := hexec.sql_ok
      dsimp only [Statement.run] at hok ⊢
      rw [(Db.issueDeviceCertificate_ok hok).2]
      exact hbefore

/-- A device that is registered gets a number that no device had, and is in no grant. -/
theorem Stage.Next.registers {s s' : World} {stage : Stage} {e : Program.Exchange Reply}
    {grant : DeviceGrant} {cert : SignedDeviceCert} {device : Device}
    (h : stage.Next C e (.record grant cert device)) (hexec : Exec C s e s') :
    device.id = s.db.nextDeviceId ∧ s'.db.grants = s.db.grants := by
  obtain ⟨publicKey, rfl, rfl⟩ := h.to_record
  obtain ⟨hok, rfl⟩ := hexec.sql_ok
  dsimp only [Statement.run] at hok ⊢
  obtain ⟨hdevice, -, hdb⟩ := Db.registerDevice_ok hok
  rw [hdb, hdevice]
  exact ⟨rfl, rfl⟩

theorem Approving.id_lt {pool : Pool Stage World} (h : Approving C pool) {i : ℕ}
    {grant : DeviceGrant} {cert : SignedDeviceCert} {device : Device}
    (hi : pool.threads i = some (.record grant cert device)) :
    device.id < pool.state.db.nextDeviceId :=
  (h.holds i _ hi).2.2.id_lt h.wellFormed

theorem Approving.start {threads : ℕ → Option Stage} {s : World} (h : Approving C ⟨threads, s⟩)
    {i : ℕ} {stage : Stage} (hstart : stage.Starts) :
    Approving C ⟨Function.update threads i (some stage), s⟩ := by
  have hrecord : ∀ j grant cert device,
      Function.update threads i (some stage) j = some (.record grant cert device) →
      threads j = some (.record grant cert device) := by
    intro j grant cert device hj
    rcases Pool.update_eq_some.1 hj with ⟨-, rfl⟩ | ⟨-, hj⟩
    · exact hstart.elim
    · exact hj
  refine ⟨h.wellFormed, h.linked, fun j stage' hj => ?_, fun j grant cert device hj => ?_, ?_⟩
  · rcases Pool.update_eq_some.1 hj with ⟨-, rfl⟩ | ⟨-, hj⟩
    · cases stage' with
      | codeConnect | pollConnect | verifyConnect | done => trivial
      | _ => exact hstart.elim
    · exact h.holds j stage' hj
  · exact h.unrecorded j grant cert device (hrecord j grant cert device hj)
  · intro j k grant cert device grant' cert' device' hjk hj hk
    exact h.apart j k _ _ _ _ _ _ hjk (hrecord _ _ _ _ hj) (hrecord _ _ _ _ hk)

theorem Approving.unrecorded_call {threads : ℕ → Option Stage} {s s' : World}
    (h : Approving C ⟨threads, s⟩) {i j : ℕ} {stage stage' : Stage} {e : Program.Exchange Reply}
    (hi : threads i = some stage) (hnext : stage.Next C e stage') (hexec : Exec C s e s')
    {grant : DeviceGrant} {cert : SignedDeviceCert} {device : Device}
    (hj : Function.update threads i (some stage') j = some (.record grant cert device)) :
    ∀ row ∈ s'.db.grants, row.approvedDeviceId ≠ some device.id := by
  intro row hrow happroved
  rcases Pool.update_eq_some.1 hj with ⟨-, rfl⟩ | ⟨hji, hj⟩
  · obtain ⟨hid, hgrants⟩ := hnext.registers hexec
    rw [hgrants] at hrow
    obtain ⟨d, hd, hdid⟩ := h.wellFormed.approvedDevice row hrow device.id happroved
    have hdlt : d.id < s.db.nextDeviceId := h.wellFormed.nextDeviceId d hd
    omega
  · exact h.unrecorded_next hi hnext hexec hji hj row hrow happroved

/-- Submissions that record their devices have different ones, after a call of any. -/
theorem Approving.apart_call {threads : ℕ → Option Stage} {s s' : World}
    (h : Approving C ⟨threads, s⟩) {i j k : ℕ} {stage stage' : Stage} {e : Program.Exchange Reply}
    (hnext : stage.Next C e stage') (hexec : Exec C s e s') {grant grant' : DeviceGrant}
    {cert cert' : SignedDeviceCert} {device device' : Device} (hjk : j ≠ k)
    (hj : Function.update threads i (some stage') j = some (.record grant cert device))
    (hk : Function.update threads i (some stage') k = some (.record grant' cert' device')) :
    device.id ≠ device'.id := by
  -- the number of a device that is being registered is ahead of those of the other submissions
  rcases Pool.update_eq_some.1 hj with ⟨rfl, rfl⟩ | ⟨-, hj'⟩
  · rcases Pool.update_eq_some.1 hk with ⟨rfl, -⟩ | ⟨-, hk'⟩
    · exact absurd rfl hjk
    · exact ((h.id_lt hk').trans_eq (hnext.registers hexec).1.symm).ne'
  · rcases Pool.update_eq_some.1 hk with ⟨-, rfl⟩ | ⟨-, hk'⟩
    · exact ((h.id_lt hj').trans_eq (hnext.registers hexec).1.symm).ne
    · exact h.apart j k _ _ _ _ _ _ hjk hj' hk'

/-- **Every call of every handler keeps what the submissions know, and only extends the tables.** -/
theorem Approving.step {pool pool' : Pool Stage World} {l : Pool.Label (Program.Exchange Reply)}
    (h : Approving C pool)
    (hstep : Pool.Step (Stage.Next C) (Exec C) Stage.Starts pool l pool') :
    Approving C pool' ∧ pool.state.db.Extends pool'.state.db := by
  cases hstep with
  | start s hfree hstart => exact ⟨h.start hstart, .refl _⟩
  | @call threads s s' i stage stage' e hi hnext hexec =>
    have hext : s.db.Extends s'.db := h.extends hi hnext hexec
    refine ⟨⟨hexec.wellFormed h.wellFormed, h.linked_next hi hnext hexec, fun j stage'' hj => ?_,
      fun _ _ _ _ hj => h.unrecorded_call hi hnext hexec hj,
      fun _ _ _ _ _ _ _ _ hjk hj hk => h.apart_call hnext hexec hjk hj hk⟩, hext⟩
    rcases Pool.update_eq_some.1 hj with ⟨-, rfl⟩ | ⟨-, hj⟩
    · exact h.holds_next hi hnext hexec
    · exact (h.holds j stage'' hj).mono hext

theorem Approving.init {w : World} (hw : w.db.WellFormed) (hlinked : w.db.Linked C) :
    Approving C ⟨fun _ => none, w⟩ := by
  refine ⟨hw, hlinked, ?_, ?_, ?_⟩
  · intro i stage hi
    cases hi
  · intro i _ _ _ hi
    cases hi
  · intro i j _ _ _ _ _ _ _ hi
    cases hi

theorem Approving.run {pool pool' : Pool Stage World}
    {ls : List (Pool.Label (Program.Exchange Reply))} (h : Approving C pool)
    (run : Pool.Run (Stage.Next C) (Exec C) Stage.Starts pool ls pool') :
    Approving C pool' ∧ pool.state.db.Extends pool'.state.db := by
  refine run.invariant (I := fun p => Approving C p ∧ pool.state.db.Extends p.state.db) ?_
    ⟨h, .refl _⟩
  intro p l p' hp hstep
  obtain ⟨hp', hext⟩ := hp.1.step hstep
  exact ⟨hp', hp.2.trans hext⟩

/-- A handler that stopped anywhere leaves the constraints of the schema, approved grants with their
devices, and what was there before. -/
theorem attempt_extends {w w' : World} (hw : w.db.WellFormed) (hlinked : w.db.Linked C)
    {p p' : Handler Rendered} (hp : Starts C p) {es : List (Program.Exchange Reply)}
    (attempt : Trace.Run (Program.Step (Exec C)) (p, w) es (p', w')) :
    w'.db.WellFormed ∧ w'.db.Linked C ∧ w.db.Extends w'.db := by
  have hrun : Pool.Run Program.Next (Exec C) (Starts C)
      (Pool.map (Stage.program C) ⟨fun _ => none, w⟩) _ _ :=
    .cons (.start (i := 0) w rfl hp) (Pool.Run.of_program attempt (Function.update_self 0 _ _))
  obtain ⟨P, hP, hrun'⟩ := hrun.simulate (fun p hp => hp.exists_stage C)
    fun _ _ _ hnext => Stage.exists_next hnext
  obtain ⟨happroving, hext⟩ := (Approving.init hw hlinked).run hrun'
  have hstate : P.state = w' := by
    have hstate := congrArg Pool.state hP
    exact hstate.symm
  rw [← hstate]
  exact ⟨happroving.wellFormed, happroving.linked, hext⟩

end Hub

end Wkp
