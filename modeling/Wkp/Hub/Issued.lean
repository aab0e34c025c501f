import Wkp.Hub.Retried

/-!
# One certificate for each device

Submissions of a user code, polls and requests for grants, call by call in any order.

* `Hub.OneCertificate` : no device is issued twice, and every certificate that a poll returned is on
  file.
* `Hub.Overlap` : a submission stores a certificate for a device that another one stored a certificate
  for since the first saw it without.
* `Hub.Issuing.step` : **a submission knows since when it saw its device without a certificate.**
* `Hub.one_certificate_iff` : **a run has one certificate for each device if and only if no two
  submissions overlap.**
-/

namespace Wkp

open Rust

namespace Hub

variable {C : Crypto}

/-! ### What the calls say -/

/-- The process and the device that the call stores a certificate for. -/
def storedDevice : Pool.Label (Program.Exchange Reply) → Option (ℕ × ℕ)
  | .call i ⟨.sql (.issueDeviceCertificate deviceId _ _ _ _), .ok ()⟩ => some (i, deviceId)
  | _ => none

/-- The process that the call shows a device without a certificate, and the device. -/
def bareDevice : Pool.Label (Program.Exchange Reply) → Option (ℕ × ℕ)
  | .call i ⟨.sql (.registerDevice _ _), .ok device⟩ => some (i, device.id)
  | .call i ⟨.sql (.findDeviceById _), .ok (some device)⟩ =>
    if device.certificatePem.isNone then some (i, device.id) else none
  | _ => none

/-- The call stores a certificate for the device. -/
def Stores (deviceId : ℕ) (l : Pool.Label (Program.Exchange Reply)) : Prop :=
  (storedDevice l).map Prod.snd = some deviceId

instance (deviceId : ℕ) : DecidablePred (Stores deviceId) :=
  fun l => inferInstanceAs (Decidable ((storedDevice l).map Prod.snd = some deviceId))

/-- A submission stores a certificate for a device that another one stored a certificate for since the
first saw it without. -/
def Overlap (ls : List (Pool.Label (Program.Exchange Reply))) : Prop :=
  ∃ l₁ seen l₂ stored l₃ i deviceId, ls = l₁ ++ seen :: (l₂ ++ stored :: l₃) ∧
    bareDevice seen = some (i, deviceId) ∧ storedDevice stored = some (i, deviceId) ∧
    ∃ l ∈ l₂, Stores deviceId l

theorem Overlap.append {ls : List (Pool.Label (Program.Exchange Reply))} (h : Overlap ls)
    (ls' : List (Pool.Label (Program.Exchange Reply))) : Overlap (ls ++ ls') := by
  obtain ⟨l₁, seen, l₂, stored, l₃, i, deviceId, rfl, hseen, hstored, hl⟩ := h
  exact ⟨l₁, seen, l₂, stored, l₃ ++ ls', i, deviceId, by simp, hseen, hstored, hl⟩

/-- No device is issued twice, and every certificate that a poll returned is on file. -/
def OneCertificate (C : Crypto) (ls : List (Pool.Label (Program.Exchange Reply)))
    (pool : Pool (Handler Rendered) World) : Prop :=
  (∀ deviceId, ls.countP (Stores deviceId) ≤ 1) ∧
  ∀ i status token, pool.threads i = some (.pure ⟨status, .token token⟩) →
    ∃ serial device, C.certSerialHex token.certificatePem = some serial ∧
      pool.state.db.findDeviceByCertSerial serial = some device ∧ device.id = token.deviceId ∧
      device.certificatePem = some token.certificatePem

/-! ### What the submissions know -/

/-- The device has no certificate. -/
def Db.Bare (db : Db) (deviceId : ℕ) : Prop :=
  ∀ device ∈ db.devices, device.id = deviceId → device.certificatePem = none

/-- The serial number on file is that of the certificate. -/
def Device.Consistent (C : Crypto) (device : Device) : Prop :=
  ∀ certificatePem, device.certificatePem = some certificatePem →
    ∃ serial, device.certSerial = some serial ∧ C.certSerialHex certificatePem = some serial

/-- The device that the submission saw without a certificate. -/
def Stage.bare : Stage → Option ℕ
  | sign grant => grant.approvedDeviceId
  | refind _ _ _ deviceId => some deviceId
  | record _ _ device | issue _ device => some device.id
  | _ => none

/-- A submission that signed knows the serial number of the certificate. -/
def Stage.Certified (C : Crypto) : Stage → Prop
  | check grant deviceId => grant.approvedDeviceId = some deviceId
  | refind _ signed _ _ | register _ signed _ | record _ signed _ | issue signed _ =>
    C.certSerialHex signed.certificatePem = some signed.serialHex
  | _ => True

/-- What the submissions know of the devices, and of the calls so far. -/
structure Issuing (C : Crypto) (ls : List (Pool.Label (Program.Exchange Reply)))
    (pool : Pool Stage World) : Prop where
  /-- What the submissions know of the tables. -/
  approving : Approving C pool
  /-- The serial numbers on file are those of the certificates. -/
  consistent : ∀ device ∈ pool.state.db.devices, device.Consistent C
  /-- So are those that are about to be stored. -/
  certified : ∀ i stage, pool.threads i = some stage → stage.Certified C
  /-- A submission has seen its device, and the device has no certificate unless one was stored
  since. -/
  seen : ∀ i stage deviceId, pool.threads i = some stage → stage.bare = some deviceId →
    ∃ l₁ l l₂, ls = l₁ ++ l :: l₂ ∧ bareDevice l = some (i, deviceId) ∧
      ((∀ l' ∈ l₂, ¬ Stores deviceId l') → pool.state.db.Bare deviceId)
  /-- A device is issued once, and then it has a certificate. -/
  stored : ¬ Overlap ls → ∀ deviceId, ls.countP (Stores deviceId) ≤ 1 ∧
    (ls.countP (Stores deviceId) ≠ 0 → ¬ pool.state.db.Bare deviceId)
  /-- The certificates that were returned are on file. -/
  returned : ¬ Overlap ls → ∀ i status token, pool.threads i = some (.done ⟨status, .token token⟩) →
    ∃ device ∈ pool.state.db.devices, device.id = token.deviceId ∧
      device.certificatePem = some token.certificatePem

/-! ### What a call does to the devices -/

/-- A call that stores no certificate keeps the devices, and new ones have none. -/
structure Db.Keeps (db db' : Db) : Prop where
  /-- The devices stay. -/
  stay : ∀ device ∈ db.devices, device ∈ db'.devices
  /-- A new device has no certificate. -/
  fresh : ∀ device ∈ db'.devices, device ∈ db.devices ∨ device.certificatePem = none

theorem Db.Keeps.of_devices_eq {db db' : Db} (h : db'.devices = db.devices) : db.Keeps db' := by
  refine ⟨fun d hd => ?_, fun d hd => .inl ?_⟩
  · rwa [h]
  · rwa [h] at hd

theorem Db.Keeps.bare {db db' : Db} (h : db.Keeps db') {deviceId : ℕ} (hbare : db.Bare deviceId) :
    db'.Bare deviceId := by
  intro d hd hid
  rcases h.fresh d hd with hd | hnone
  · exact hbare d hd hid
  · exact hnone

theorem Stage.Next.keeps_or_stores {stage stage' : Stage} {e : Program.Exchange Reply}
    {w w' : World} (h : stage.Next C e stage') (hexec : Exec C w e w') :
    (w.db.Keeps w'.db ∧ ∀ i, storedDevice (.call i e) = none) ∨
    ∃ cert device, stage = .issue cert device ∧ stage' = .done .approved ∧
      e = ⟨.sql (.issueDeviceCertificate device.id cert.certificatePem cert.serialHex cert.notBefore
        cert.notAfter), .ok ()⟩ := by
  rcases h.quiet_or_writes with hquiet | hwrites
  · refine .inl ⟨.of_devices_eq (hexec.sameRows hquiet).devices, fun i => ?_⟩
    unfold storedDevice
    split
    case h_1 heq =>
      have hquery := hquiet _ _ (Pool.Label.call.inj heq).2
      cases hquery
    case h_2 => rfl
  · -- of the calls that write, only the last one of a submission stores a certificate
    cases hwrites with
    | inserted =>
      obtain ⟨hok, rfl⟩ := hexec.sql_ok
      dsimp only [Statement.run] at hok ⊢
      rw [(Db.createDeviceGrant_ok hok).2]
      exact .inl ⟨.of_devices_eq rfl, fun _ => rfl⟩
    | registered =>
      obtain ⟨hok, rfl⟩ := hexec.sql_ok
      dsimp only [Statement.run] at hok ⊢
      obtain ⟨hdevice, -, hdb⟩ := Db.registerDevice_ok hok
      rw [hdb]
      refine .inl ⟨⟨fun d hd => List.mem_append_left _ hd, fun d hd => ?_⟩, fun _ => rfl⟩
      rcases List.mem_append.1 hd with hd | hd
      · exact .inl hd
      · rw [List.mem_singleton.1 hd, hdevice]
        exact .inr rfl
    | recorded =>
      obtain ⟨hok, rfl⟩ := hexec.sql_ok
      dsimp only [Statement.run] at hok ⊢
      rw [(Db.recordApprovedDevice_ok hok).2]
      exact .inl ⟨.of_devices_eq rfl, fun _ => rfl⟩
    | issued => exact .inr ⟨_, _, rfl, rfl, rfl⟩

theorem Stage.Next.bare {stage stage' : Stage} {e : Program.Exchange Reply} {w w' : World}
    (h : stage.Next C e stage') (hexec : Exec C w e w') {i deviceId : ℕ}
    (hstores : ¬ Stores deviceId (.call i e)) (hbare : w.db.Bare deviceId) : w'.db.Bare deviceId := by
  rcases h.keeps_or_stores hexec with ⟨hkeeps, -⟩ | ⟨cert, device, rfl, rfl, rfl⟩
  · exact hkeeps.bare hbare
  · obtain ⟨hok, rfl⟩ := hexec.sql_ok
    dsimp only [Statement.run] at hok ⊢
    rw [(Db.issueDeviceCertificate_ok hok).2]
    intro d hd hid
    obtain ⟨d₀, hd₀, rfl⟩ := List.mem_map.1 hd
    split_ifs at hid ⊢ with hdevice
    · exact absurd (congrArg some (hdevice.symm.trans hid)) hstores
    · exact hbare d₀ hd₀ hid

/-! ### Every call keeps what the submissions know -/

section Call

variable {ls : List (Pool.Label (Program.Exchange Reply))} {pool : Pool Stage World} {i : ℕ}
  {stage stage' : Stage} {e : Program.Exchange Reply} {w' : World}

theorem Issuing.consistent_next (h : Issuing C ls pool) (hi : pool.threads i = some stage)
    (hnext : stage.Next C e stage') (hexec : Exec C pool.state e w') :
    ∀ device ∈ w'.db.devices, device.Consistent C := by
  rcases hnext.keeps_or_stores hexec with ⟨hkeeps, -⟩ | ⟨cert, device, rfl, rfl, rfl⟩
  · intro d hd
    rcases hkeeps.fresh d hd with hd | hnone
    · exact h.consistent d hd
    · intro pem hpem
      rw [hnone] at hpem
      cases hpem
  · have hcert := h.certified i _ hi
    obtain ⟨hok, rfl⟩ := hexec.sql_ok
    dsimp only [Statement.run] at hok ⊢
    rw [(Db.issueDeviceCertificate_ok hok).2]
    intro d hd
    obtain ⟨d₀, hd₀, rfl⟩ := List.mem_map.1 hd
    split_ifs
    · intro pem hpem
      obtain rfl := Option.some.inj hpem
      exact ⟨_, rfl, hcert⟩
    · exact h.consistent d₀ hd₀

theorem Issuing.certified_next (h : Issuing C ls pool) (hi : pool.threads i = some stage)
    (hnext : stage.Next C e stage') (hexec : Exec C pool.state e w') : stage'.Certified C := by
  have hs := h.certified i stage hi
  cases hnext with
  | verifyTimedApproved _ happroved => exact happroved
  | signed | signedApproved => exact hexec.sign_ok.2.1
  | refound | lost | registered | recorded => exact hs
  | _ => trivial

/-- A submission has seen its device without a certificate, or sees it so in this call. -/
theorem Issuing.bare_next (h : Issuing C ls pool) (hi : pool.threads i = some stage)
    (hnext : stage.Next C e stage') (hexec : Exec C pool.state e w') {deviceId : ℕ}
    (hbare : stage'.bare = some deviceId) : stage.bare = some deviceId ∨
      bareDevice (.call i e) = some (i, deviceId) ∧ w'.db.Bare deviceId := by
  have hwf := h.approving.wellFormed
  cases hnext with
  | verifyTimed _ hnone => exact absurd (hnone.symm.trans hbare) (by simp)
  | @checked grant approvedId found hfound =>
    have happroved : grant.approvedDeviceId = some approvedId := h.certified i _ hi
    obtain rfl : approvedId = deviceId := Option.some.inj (happroved.symm.trans hbare)
    obtain ⟨hok, rfl⟩ := hexec.sql_ok
    have hlookup : pool.state.db.findDeviceById approvedId = found := Except.ok.inj hok
    -- the device that the grant names exists
    obtain ⟨row, hrow, hafter⟩ := h.approving.holds i _ hi
    obtain ⟨d, hd, hid⟩ := hwf.approvedDevice row hrow _ (hafter.approved _ happroved)
    obtain rfl : some d = found := (hwf.findDeviceById.2 ⟨hd, hid⟩).symm.trans hlookup
    have hpem := hfound d rfl
    refine .inr ⟨?_, fun d' hd' hid' => ?_⟩
    · unfold bareDevice
      simp [hpem, hid]
    · rwa [hwf.deviceId.eq_of_key_eq hd' hd (hid'.trans hid.symm)]
  | signedApproved _ happroved => exact .inl (happroved.trans hbare)
  | refound =>
    obtain ⟨hok, rfl⟩ := hexec.sql_ok
    have hid := (hwf.findDeviceById.1 (Except.ok.inj hok)).2
    rw [← hid]
    exact .inl hbare
  | registered =>
    obtain ⟨hok, rfl⟩ := hexec.sql_ok
    obtain ⟨hdevice, -, hdb⟩ := Db.registerDevice_ok hok
    obtain rfl := Option.some.inj hbare
    refine .inr ⟨rfl, ?_⟩
    dsimp only [Statement.run]
    rw [hdb]
    intro d hd hid
    rcases List.mem_append.1 hd with hd | hd
    · have hlt := hwf.nextDeviceId d hd
      rw [hid, hdevice] at hlt
      exact absurd hlt (lt_irrefl _)
    · rw [List.mem_singleton.1 hd, hdevice]
  | recorded => exact .inl hbare
  | _ => cases hbare

/-- A submission without an overlap stores a certificate for a device that has none. -/
theorem Issuing.bare_of_stores (h : Issuing C ls pool) {cert : SignedDeviceCert} {device : Device}
    (hi : pool.threads i = some (.issue cert device))
    (hoverlap : ¬ Overlap (ls ++ [.call i ⟨.sql (.issueDeviceCertificate device.id
      cert.certificatePem cert.serialHex cert.notBefore cert.notAfter), .ok ()⟩])) :
    pool.state.db.Bare device.id := by
  obtain ⟨l₁, l, l₂, rfl, hl, hbare⟩ := h.seen i _ device.id hi rfl
  refine hbare fun l' hl' hstores => hoverlap ?_
  exact ⟨l₁, l, l₂, _, [], i, device.id, List.append_assoc _ _ _, hl, rfl, l', hl', hstores⟩

theorem Issuing.stored_next (h : Issuing C ls pool) (hi : pool.threads i = some stage)
    (hnext : stage.Next C e stage') (hexec : Exec C pool.state e w')
    (hoverlap : ¬ Overlap (ls ++ [.call i e])) (deviceId : ℕ) :
    (ls ++ [Pool.Label.call i e]).countP (Stores deviceId) ≤ 1 ∧
      ((ls ++ [Pool.Label.call i e]).countP (Stores deviceId) ≠ 0 → ¬ w'.db.Bare deviceId) := by
  obtain ⟨hle, hbare⟩ := h.stored (fun ho => hoverlap (ho.append _)) deviceId
  rw [List.countP_append, List.countP_singleton]
  by_cases hstores : Stores deviceId (.call i e)
  · rcases hnext.keeps_or_stores hexec with ⟨-, hnone⟩ | ⟨cert, device, rfl, rfl, rfl⟩
    · unfold Stores at hstores
      rw [hnone] at hstores
      cases hstores
    · obtain rfl : device.id = deviceId := Option.some.inj hstores
      have hnone := h.bare_of_stores hi hoverlap
      have hzero : ls.countP (Stores device.id) = 0 := by
        by_contra hne
        exact hbare hne hnone
      rw [hzero, if_pos (by simpa using hstores)]
      refine ⟨le_rfl, fun _ hbare' => ?_⟩
      -- the device of the submission has the certificate now
      obtain ⟨row, hrow, hafter⟩ := h.approving.holds i _ hi
      obtain ⟨hok, rfl⟩ := hexec.sql_ok
      dsimp only [Statement.run] at hok hbare'
      rw [(Db.issueDeviceCertificate_ok hok).2] at hbare'
      have hrow' := hbare' _ (List.mem_map_of_mem hrow)
      rw [if_pos hafter.id_eq] at hrow'
      cases hrow' hafter.id_eq
  · rw [if_neg (by simpa using hstores)]
    refine ⟨hle, fun hne hbare' => ?_⟩
    refine hbare hne fun d hd hid => ?_
    obtain ⟨d', hd', hafter⟩ := (h.approving.extends hi hnext hexec).devices d hd
    have hnone := hbare' d' hd' (hafter.id_eq.trans hid)
    by_contra hpem
    have hissued := hafter.issued (Option.isSome_iff_ne_none.2 hpem)
    rw [hnone] at hissued
    cases hissued

theorem Issuing.returned_next (h : Issuing C ls pool) (hi : pool.threads i = some stage)
    (hnext : stage.Next C e stage') (hexec : Exec C pool.state e w')
    (hoverlap : ¬ Overlap (ls ++ [.call i e])) {device : Device}
    (hdevice : device ∈ pool.state.db.devices) {certificatePem : Str}
    (hpem : device.certificatePem = some certificatePem) : device ∈ w'.db.devices := by
  rcases hnext.keeps_or_stores hexec with ⟨hkeeps, -⟩ | ⟨cert, device', rfl, rfl, rfl⟩
  · exact hkeeps.stay device hdevice
  · have hbare := h.bare_of_stores hi hoverlap
    have hne : device.id ≠ device'.id := by
      intro heq
      rw [hbare device hdevice heq] at hpem
      cases hpem
    obtain ⟨hok, rfl⟩ := hexec.sql_ok
    dsimp only [Statement.run] at hok ⊢
    rw [(Db.issueDeviceCertificate_ok hok).2]
    have hmem := List.mem_map_of_mem (f := fun d : Device => if d.id = device'.id then { d with
      certificatePem := some cert.certificatePem
      certSerial := some cert.serialHex
      certIssuedAt := some cert.notBefore
      certExpiresAt := some cert.notAfter } else d) hdevice
    rwa [if_neg hne] at hmem

theorem Issuing.token_next (h : Issuing C ls pool) {status : ℕ} {token : TokenSuccessResponse}
    (hnext : stage.Next C e (.done ⟨status, .token token⟩)) (hexec : Exec C pool.state e w') :
    ∃ device ∈ w'.db.devices, device.id = token.deviceId ∧
      device.certificatePem = some token.certificatePem := by
  generalize hdone : Stage.done ⟨status, .token token⟩ = stage'' at hnext
  cases hnext with
  | ends _ _ hnot =>
    obtain rfl := Stage.done.inj hdone
    exact absurd ⟨token, rfl⟩ hnot
  | codeInserted hnot =>
    obtain rfl := Stage.done.inj hdone
    exact absurd ⟨token, rfl⟩ hnot
  | issued => cases Stage.done.inj hdone
  | pollIssued hpem =>
    obtain ⟨hok, rfl⟩ := hexec.sql_ok
    have hfound := h.approving.wellFormed.findDeviceById.1 (Except.ok.inj hok)
    cases Stage.done.inj hdone
    exact ⟨_, hfound.1, hfound.2, hpem⟩
  | _ => cases hdone

end Call

theorem Issuing.seen_next {ls : List (Pool.Label (Program.Exchange Reply))} {pool : Pool Stage World}
    (h : Issuing C ls pool) {l : Pool.Label (Program.Exchange Reply)} {w' : World} {j : ℕ}
    {stage : Stage} {deviceId : ℕ} (hj : pool.threads j = some stage)
    (hbare : stage.bare = some deviceId)
    (hkeep : ¬ Stores deviceId l → pool.state.db.Bare deviceId → w'.db.Bare deviceId) :
    ∃ l₁ l' l₂, ls ++ [l] = l₁ ++ l' :: l₂ ∧ bareDevice l' = some (j, deviceId) ∧
      ((∀ l'' ∈ l₂, ¬ Stores deviceId l'') → w'.db.Bare deviceId) := by
  obtain ⟨l₁, l', l₂, rfl, hl', hnone⟩ := h.seen j stage deviceId hj hbare
  refine ⟨l₁, l', l₂ ++ [l], List.append_assoc _ _ _, hl', fun hstores => ?_⟩
  exact hkeep (hstores l (List.mem_append_right _ (List.mem_singleton_self l)))
    (hnone fun l'' hl'' => hstores l'' (List.mem_append_left _ hl''))

theorem Issuing.start {ls : List (Pool.Label (Program.Exchange Reply))}
    {threads : ℕ → Option Stage} {w : World} (h : Issuing C ls ⟨threads, w⟩) {i : ℕ} {stage : Stage}
    (hfree : threads i = none) (hstart : stage.Starts) :
    Issuing C (ls ++ [.start i]) ⟨Function.update threads i (some stage), w⟩ := by
  -- the process that starts has seen nothing, and has returned no certificate
  have hcases : ∀ {j stage'}, Function.update threads i (some stage) j = some stage' →
      threads j = some stage' ∨ stage' = stage := by
    intro j stage' hj
    by_cases hji : j = i
    · rw [hji, Function.update_self] at hj
      exact .inr (Option.some.inj hj).symm
    · rw [Function.update_of_ne hji] at hj
      exact .inl hj
  have hcount : ∀ deviceId, (ls ++ [Pool.Label.start i]).countP (Stores deviceId) =
      ls.countP (Stores deviceId) := by
    intro deviceId
    rw [List.countP_append, List.countP_singleton, if_neg (by simp [Stores, storedDevice])]
    rfl
  refine ⟨(h.approving.step (.start w hfree hstart)).1, h.consistent, ?_, ?_, ?_, ?_⟩
  · intro j stage' hj
    rcases hcases hj with hj | rfl
    · exact h.certified j stage' hj
    · cases stage' with
      | codeConnect | pollConnect | verifyConnect | done => trivial
      | _ => exact hstart.elim
  · intro j stage' deviceId hj hbare
    rcases hcases hj with hj | rfl
    · exact h.seen_next hj hbare fun _ hkeep => hkeep
    · cases stage' with
      | codeConnect | pollConnect | verifyConnect | done => cases hbare
      | _ => exact hstart.elim
  · intro hoverlap deviceId
    rw [hcount]
    exact h.stored (fun ho => hoverlap (ho.append _)) deviceId
  · intro hoverlap j status token hj
    rcases hcases hj with hj | rfl
    · exact h.returned (fun ho => hoverlap (ho.append _)) j status token hj
    · exact absurd ⟨token, rfl⟩ hstart

/-- **A submission knows since when it saw its device without a certificate.** -/
theorem Issuing.step {ls : List (Pool.Label (Program.Exchange Reply))} {pool pool' : Pool Stage World}
    {l : Pool.Label (Program.Exchange Reply)} (h : Issuing C ls pool)
    (hstep : Pool.Step (Stage.Next C) (Exec C) Stage.Starts pool l pool') :
    Issuing C (ls ++ [l]) pool' := by
  have happroving := (h.approving.step hstep).1
  cases hstep with
  | start w hfree hstart => exact h.start hfree hstart
  | @call threads w w' i stage stage' e hi hnext hexec =>
    -- a process is where it was, or it made the call
    have hcases : ∀ {j stage''}, Function.update threads i (some stage') j = some stage'' →
        threads j = some stage'' ∨ j = i ∧ stage'' = stage' := by
      intro j stage'' hj
      by_cases hji : j = i
      · rw [hji, Function.update_self] at hj
        exact .inr ⟨hji, (Option.some.inj hj).symm⟩
      · rw [Function.update_of_ne hji] at hj
        exact .inl hj
    refine ⟨happroving, h.consistent_next hi hnext hexec, ?_, ?_, h.stored_next hi hnext hexec, ?_⟩
    · intro j stage'' hj
      rcases hcases hj with hj | ⟨rfl, rfl⟩
      · exact h.certified j stage'' hj
      · exact h.certified_next hi hnext hexec
    · intro j stage'' deviceId hj hbare
      rcases hcases hj with hj | ⟨rfl, rfl⟩
      · exact h.seen_next hj hbare (hnext.bare hexec)
      · rcases h.bare_next hi hnext hexec hbare with hbefore | ⟨hseen, hnone⟩
        · exact h.seen_next hi hbefore (hnext.bare hexec)
        · exact ⟨ls, _, [], rfl, hseen, fun _ => hnone⟩
    · intro hoverlap j status token hj
      rcases hcases hj with hj | ⟨rfl, rfl⟩
      · obtain ⟨device, hdevice, hid, hpem⟩ :=
          h.returned (fun ho => hoverlap (ho.append _)) j status token hj
        exact ⟨device, h.returned_next hi hnext hexec hoverlap hdevice hpem, hid, hpem⟩
      · exact h.token_next hnext hexec

/-! ### Runs -/

theorem Issuing.init {w : World} (hw : w.db.WellFormed) (hlinked : w.db.Linked C)
    (hconsistent : ∀ device ∈ w.db.devices, device.Consistent C) :
    Issuing C [] ⟨fun _ => none, w⟩ := by
  refine ⟨.init hw hlinked, hconsistent, ?_, ?_, ?_, ?_⟩
  · intro i stage hi
    cases hi
  · intro i stage deviceId hi
    cases hi
  · intro _ deviceId
    exact ⟨Nat.zero_le 1, fun hne => absurd rfl hne⟩
  · intro _ i status token hi
    cases hi

theorem Stage.eq_done {stage : Stage} {response : Rendered}
    (h : stage.program C = Program.pure response) : stage = .done response := by
  cases stage with
  | done r => exact congrArg Stage.done (Program.pure.inj h)
  | _ => cases h

theorem Overlap.two_le {ls : List (Pool.Label (Program.Exchange Reply))} (h : Overlap ls) :
    ∃ deviceId, 2 ≤ ls.countP (Stores deviceId) := by
  obtain ⟨l₁, seen, l₂, stored, l₃, i, deviceId, rfl, -, hstored, l, hl, hstores⟩ := h
  refine ⟨deviceId, ?_⟩
  have hstored' : Stores deviceId stored := congrArg (Option.map Prod.snd) hstored
  have hfirst : 0 < l₂.countP (Stores deviceId) :=
    List.countP_pos_iff.2 ⟨l, hl, decide_eq_true hstores⟩
  rw [List.countP_append, List.countP_cons, List.countP_append, List.countP_cons,
    if_pos (decide_eq_true hstored')]
  omega

/-- **A run has one certificate for each device if and only if no two submissions overlap.** -/
theorem one_certificate_iff {w₀ : World} (hw : w₀.db.WellFormed) (hgrants : w₀.db.grants = [])
    (hconsistent : ∀ device ∈ w₀.db.devices, device.Consistent C)
    {ls : List (Pool.Label (Program.Exchange Reply))} {pool : Pool (Handler Rendered) World}
    (run : Pool.Run Program.Next (Exec C) (Starts C) ⟨fun _ => none, w₀⟩ ls pool) :
    OneCertificate C ls pool ↔ ¬ Overlap ls := by
  have hlinked : w₀.db.Linked C := by
    intro grant hgrant
    rw [hgrants] at hgrant
    cases hgrant
  have hrun : Pool.Run Program.Next (Exec C) (Starts C)
      (Pool.map (Stage.program C) ⟨fun _ => none, w₀⟩) ls pool := run
  obtain ⟨P, rfl, run'⟩ := hrun.simulate (fun p hp => hp.exists_stage C)
    fun _ _ _ hnext => Stage.exists_next hnext
  have h : Issuing C ls P := Trace.Run.history (I := Issuing C) (.init hw hlinked hconsistent)
    (fun _ _ _ _ _ hI hstep => hI.step hstep) run'
  constructor
  · rintro ⟨hcount, -⟩ hoverlap
    obtain ⟨deviceId, htwo⟩ := hoverlap.two_le
    exact absurd (hcount deviceId) (by omega)
  · intro hoverlap
    refine ⟨fun deviceId => (h.stored hoverlap deviceId).1, fun i status token hi => ?_⟩
    obtain ⟨stage, hstage, hprogram⟩ := Option.map_eq_some_iff.1 hi
    obtain rfl := Stage.eq_done hprogram
    obtain ⟨device, hdevice, hid, hpem⟩ := h.returned hoverlap i status token hstage
    obtain ⟨serial, hserial, hhex⟩ := h.consistent device hdevice _ hpem
    exact ⟨serial, device, hhex,
      h.approving.wellFormed.findDeviceByCertSerial.2 ⟨hdevice, hserial⟩, hid, hpem⟩

/-! ### Two submissions that overlap -/

theorem run_exampleCode : Pool.Run Program.Next (Exec exampleCrypto) (Starts exampleCrypto)
    ⟨fun _ => none, exampleWorld⟩ (.start 0 :: exampleCode.1.map (.call 0))
    ⟨Function.update (fun _ => none) 0 (some (.pure exampleCode.2.1)), exampleGranted⟩ :=
  .of_returns (Program.returns_eval (exec_exampleAnswer []) (handleDeviceCode exampleCrypto
    (.ok ("acme".toList, "key".toList)) "dc".toList "uc".toList) _) rfl (.inl ⟨_, _, _, rfl⟩)

/-- A submission registers and records the device. -/
def exampleFirst : List (Program.Exchange Reply) × Handler Rendered × World :=
  exampleSubmit.stop (exampleAnswer "01".toList) 6 exampleGranted

/-- Another one finds that the device has no certificate. -/
def exampleSecond : List (Program.Exchange Reply) × Handler Rendered × World :=
  exampleSubmit.stop (exampleAnswer "02".toList) 4 exampleFirst.2.2

/-- The first stores its certificate. -/
def exampleFirstEnd : List (Program.Exchange Reply) × Rendered × World :=
  exampleFirst.2.1.eval (exampleAnswer "01".toList) exampleSecond.2.2

/-- The device polls. -/
def examplePoll : List (Program.Exchange Reply) × Rendered × World :=
  (handleDeviceToken exampleCrypto (.ok "dc".toList)).eval (exampleAnswer []) exampleFirstEnd.2.2

/-- The second stores its certificate. -/
def exampleSecondEnd : List (Program.Exchange Reply) × Rendered × World :=
  exampleSecond.2.1.eval (exampleAnswer "02".toList) examplePoll.2.2

/-- The calls. -/
def exampleCalls : List (Pool.Label (Program.Exchange Reply)) :=
  ((((.start 0 :: exampleCode.1.map (.call 0)) ++ (.start 1 :: exampleFirst.1.map (.call 1))) ++
    (.start 2 :: exampleSecond.1.map (.call 2)) ++ exampleFirstEnd.1.map (.call 1)) ++
    (.start 3 :: examplePoll.1.map (.call 3))) ++ exampleSecondEnd.1.map (.call 2)

theorem run_exampleCalls : ∃ pool, Pool.Run Program.Next (Exec exampleCrypto) (Starts exampleCrypto)
    ⟨fun _ => none, exampleWorld⟩ exampleCalls pool ∧
    pool.threads 3 = some (.pure examplePoll.2.1) ∧ pool.state = exampleSecondEnd.2.2 := by
  have hanswer := fun serial : String => exec_exampleAnswer serial.toList
  have hsubmit : Starts exampleCrypto exampleSubmit := .inr (.inr ⟨_, rfl⟩)
  have run₁ :=
    run_exampleCode.append (Pool.Run.of_start (i := 1) (Program.run_stop (hanswer "01") 6 _ _) rfl hsubmit)
  have run₂ :=
    run₁.append (Pool.Run.of_start (i := 2) (Program.run_stop (hanswer "02") 4 _ _) rfl hsubmit)
  have run₃ := run₂.append
    (Pool.Run.of_program (i := 1) (Program.returns_eval (hanswer "01") exampleFirst.2.1 _) rfl)
  have run₄ := run₃.append (Pool.Run.of_returns (i := 3) (Program.returns_eval (exec_exampleAnswer [])
    (handleDeviceToken exampleCrypto (.ok "dc".toList)) _) rfl (.inr (.inl ⟨_, rfl⟩)))
  have run₅ := run₄.append
    (Pool.Run.of_program (i := 2) (Program.returns_eval (hanswer "02") exampleSecond.2.1 _) rfl)
  exact ⟨_, run₅, rfl, rfl⟩

/-- **The hub stores two certificates for one device, and no longer knows the one that it returned.** -/
theorem not_oneCertificate : ∃ pool, Pool.Run Program.Next (Exec exampleCrypto)
    (Starts exampleCrypto) ⟨fun _ => none, exampleWorld⟩ exampleCalls pool ∧
    exampleCalls.countP (Stores 1) = 2 ∧
    pool.threads 3 = some (.pure (.certificate exampleCrypto
      ⟨1, "acme".toList, false, false, none, 0⟩ 1 "01".toList)) ∧
    pool.state.db.findDeviceByCertSerial "01".toList = none ∧
    ¬ OneCertificate exampleCrypto exampleCalls pool := by
  obtain ⟨pool, run, hpoll, hstate⟩ := run_exampleCalls
  have hcount : exampleCalls.countP (Stores 1) = 2 := by decide
  refine ⟨pool, run, hcount, hpoll.trans (congrArg some (congrArg Program.pure ?_)), ?_, fun h => ?_⟩
  · decide
  · rw [hstate]
    decide
  · have hle := h.1 1
    rw [hcount] at hle
    omega

theorem countP_stores_le (ls : List (Pool.Label (Program.Exchange Reply))) (deviceId : ℕ) :
    ls.countP (Stores deviceId) ≤ (ls.filterMap storedDevice).length := by
  rw [List.length_filterMap_eq_countP]
  refine List.countP_mono_left fun l _ hstores => ?_
  obtain ⟨x, hx, -⟩ := Option.map_eq_some_iff.1 (of_decide_eq_true hstores)
  rw [hx]
  rfl

/-! ### Submissions that do not overlap -/

/-- A submission is signing the key. -/
def exampleSlow : List (Program.Exchange Reply) × Handler Rendered × World :=
  exampleSubmit.stop (exampleAnswer "01".toList) 4 exampleGranted

/-- The device polls. -/
def examplePending : List (Program.Exchange Reply) × Rendered × World :=
  (handleDeviceToken exampleCrypto (.ok "dc".toList)).eval (exampleAnswer []) exampleSlow.2.2

/-- The submission stores its certificate. -/
def exampleSlowEnd : List (Program.Exchange Reply) × Rendered × World :=
  exampleSlow.2.1.eval (exampleAnswer "01".toList) examplePending.2.2

/-- The device polls again. -/
def exampleToken : List (Program.Exchange Reply) × Rendered × World :=
  (handleDeviceToken exampleCrypto (.ok "dc".toList)).eval (exampleAnswer []) exampleSlowEnd.2.2

/-- The user code is submitted again. -/
def exampleLate : List (Program.Exchange Reply) × Rendered × World :=
  exampleSubmit.eval (exampleAnswer "02".toList) exampleToken.2.2

/-- Polls during and after a submission, and another one after it. -/
theorem oneCertificate_exampleLate : ∃ ls pool, Pool.Run Program.Next (Exec exampleCrypto)
    (Starts exampleCrypto) ⟨fun _ => none, exampleWorld⟩ ls pool ∧
    pool.threads 2 = some (.pure (.authorizationPending)) ∧
    pool.threads 3 = some (.pure (.certificate exampleCrypto
      ⟨1, "acme".toList, false, false, none, 0⟩ 1 "01".toList)) ∧
    OneCertificate exampleCrypto ls pool := by
  have hanswer := fun serial : String => exec_exampleAnswer serial.toList
  have hsubmit : Starts exampleCrypto exampleSubmit := .inr (.inr ⟨_, rfl⟩)
  have hpoll : Starts exampleCrypto (handleDeviceToken exampleCrypto (.ok "dc".toList)) :=
    .inr (.inl ⟨_, rfl⟩)
  have run₁ := run_exampleCode.append
    (Pool.Run.of_start (i := 1) (Program.run_stop (hanswer "01") 4 _ _) rfl hsubmit)
  have run₂ := run₁.append (Pool.Run.of_returns (i := 2)
    (Program.returns_eval (exec_exampleAnswer []) _ exampleSlow.2.2) rfl hpoll)
  have run₃ := run₂.append (Pool.Run.of_program (i := 1)
    (Program.returns_eval (hanswer "01") exampleSlow.2.1 examplePending.2.2) rfl)
  have run₄ := run₃.append (Pool.Run.of_returns (i := 3)
    (Program.returns_eval (exec_exampleAnswer []) _ exampleSlowEnd.2.2) rfl hpoll)
  have run₅ := run₄.append (Pool.Run.of_returns (i := 4)
    (Program.returns_eval (hanswer "02") exampleSubmit exampleToken.2.2) rfl hsubmit)
  have hpending : examplePending.2.1 = .authorizationPending := by decide
  have htoken : exampleToken.2.1 = .certificate exampleCrypto
      ⟨1, "acme".toList, false, false, none, 0⟩ 1 "01".toList := by decide
  refine ⟨_, _, run₅, congrArg (some ∘ Program.pure) hpending, congrArg (some ∘ Program.pure) htoken,
    (one_certificate_iff exampleWorld_wellFormed rfl ?_ run₅).2 fun h => ?_⟩
  · intro device hdevice
    cases hdevice
  · obtain ⟨deviceId, htwo⟩ := h.two_le
    have hone : 2 ≤ 1 := htwo.trans (countP_stores_le _ deviceId)
    omega

end Hub

end Wkp
