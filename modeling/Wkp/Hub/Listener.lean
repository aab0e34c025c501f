import Wkp.Hub.ControlPlane
import Wkp.Hub.Registry

/-!
# The listener for revocations

Handshakes, registrations, revocations and the thread that closes the connections of revoked
devices, step by step in any order.

* `Hub.verifyClientCert`, `Hub.Db.revokeDevice` : the handshake and the revocation.
* `Hub.Listener.Phase` : where the thread stands between two of its waits.
* `Hub.Listener.Step` : one step of a handshake, of a connection, of a command, or of the thread.
* `Hub.Listener.Owed` : a connection that the thread has to close before it waits again.
* `Hub.Listener.closes_iff` : **a wait that has ended leaves no connection of a revoked device open,
  exactly when it has not timed out over one.**
-/

namespace Wkp

open Rust

namespace Hub

/-! ### Handshakes and revocations -/

/-- `CertificateError`, as far as the hub makes one. -/
inductive CertificateError
  | badEncoding | unknownIssuer | revoked
  deriving DecidableEq, Repr

/-- `rustls::Error`, as far as the hub makes one. -/
inductive TlsError
  | invalidCertificate (e : CertificateError)
  | general (what : Str)
  deriving DecidableEq, Repr

/-- `verify_client_cert`, with the verdict on the chain, the serial number of the certificate if it
parses, and what the control plane answers. -/
def verifyClientCert (inner : Except TlsError Unit) (serialHex : Option Str)
    (lookup : Except Error (Option Device)) : Except TlsError Unit := do
  inner
  match serialHex with
  | none => .error (.invalidCertificate .badEncoding)
  | some _ =>
    match lookup with
    | .error e =>
      .error (.general ("control plane lookup failed during mTLS handshake: ".toList ++ e.toStr))
    | .ok none => .error (.invalidCertificate .unknownIssuer)
    | .ok (some device) =>
      if device.revokedAt.isSome then .error (.invalidCertificate .revoked) else .ok ()

namespace Db

/-- The update of `revoke_device`: the serial number of the row that it changed. -/
def revokeDevice (db : Db) (now deviceId : ℕ) : Option (Option Str) × Db :=
  match db.devices.find? fun d => d.id = deviceId ∧ d.revokedAt = none with
  | none => (none, db)
  | some device => (some device.certSerial, { db with devices := db.devices.map fun d =>
      if d.id = deviceId ∧ d.revokedAt = none then { d with revokedAt := some now } else d })

/-- The query of `sweep_revoked`: when the device with this certificate was revoked. -/
def findRevokedAt (db : Db) (certSerial : Str) : Option ℕ :=
  (db.devices.find? fun d => d.certSerial = some certSerial ∧ d.revokedAt.isSome).bind
    Device.revokedAt

/-- The revocation of the device with this certificate is committed. -/
def Revoked (db : Db) (certSerial : Str) : Prop :=
  ∃ d ∈ db.devices, d.certSerial = some certSerial ∧ d.revokedAt.isSome = true

theorem findRevokedAt_isSome {db : Db} {certSerial : Str} :
    (db.findRevokedAt certSerial).isSome = true ↔ db.Revoked certSerial := by
  unfold findRevokedAt Revoked
  constructor
  · intro h
    obtain ⟨now, hnow⟩ := Option.isSome_iff_exists.1 h
    obtain ⟨d, hd, -⟩ := Option.bind_eq_some_iff.1 hnow
    exact ⟨d, List.mem_of_find?_eq_some hd, by simpa using List.find?_some hd⟩
  · rintro ⟨d, hd, hserial, hrevoked⟩
    have hfound : (db.devices.find? fun d =>
        d.certSerial = some certSerial ∧ d.revokedAt.isSome).isSome = true :=
      List.find?_isSome.2 ⟨d, hd, by simp [hserial, hrevoked]⟩
    obtain ⟨d', hd'⟩ := Option.isSome_iff_exists.1 hfound
    have hd'r : d'.revokedAt.isSome = true := by
      have h := List.find?_some hd'
      simp only [decide_eq_true_eq] at h
      exact h.2
    rw [hd', Option.bind_some]
    exact hd'r

theorem Revoked.revokeDevice {db : Db} {certSerial : Str} (h : db.Revoked certSerial)
    (now deviceId : ℕ) : (db.revokeDevice now deviceId).2.Revoked certSerial := by
  obtain ⟨d, hd, hserial, hrevoked⟩ := h
  unfold Db.revokeDevice
  cases db.devices.find? fun d => d.id = deviceId ∧ d.revokedAt = none with
  | none => exact ⟨d, hd, hserial, hrevoked⟩
  | some device =>
    refine ⟨_, List.mem_map_of_mem hd, ?_, ?_⟩
    · split_ifs <;> exact hserial
    · split_ifs
      · rfl
      · exact hrevoked

end Db

/-! ### Notifications -/

/-- `NOTIFY_CHANNEL`. -/
def notifyChannel : Str := "wkp_hub_connection_reset".toList

/-- `RESET_ALL_PAYLOAD`. -/
def resetAllPayload : Str := "*".toList

/-- A notification. -/
structure Notification where
  /-- The channel. -/
  channel : Str
  /-- The payload. -/
  payload : Str
  deriving DecidableEq, Repr

/-- What `revoke_device` notifies, given the row that its update returned. -/
def revocationNotice : Option (Option Str) → Option Notification
  | some (some certSerial) => some ⟨notifyChannel, certSerial⟩
  | _ => none

/-- What the listener takes from a notification. -/
def Notification.received (n : Notification) : Option Str :=
  if n.channel = notifyChannel then some n.payload else none

/-- What the listener closes for a payload. -/
def ConnectionRegistry.closeReceived (r : ConnectionRegistry) : Option Str → ConnectionRegistry
  | none => r
  | some payload =>
    if payload = resetAllPayload then r.closeAll.2 else (r.closeDevice payload).2

/-- What `sweep_revoked` makes of an answer: a query that fails finds no revocation. -/
def isRevoked (answer : Except Error (Option ℕ)) : Bool := answer.toOption.join.isSome

namespace Listener

/-! ### Steps -/

/-- Where the thread of `listen_for_revocations` stands. -/
inductive Phase
  /-- There is no session, or none that listens yet. -/
  | connecting
  /-- It is in `timeout_iter(SWEEP_INTERVAL).next()`. -/
  | waiting
  /-- A notification has ended the wait. -/
  | ended (received : Option Str)
  /-- It is at the start of `sweep_revoked`. -/
  | collecting
  /-- It has these serial numbers to ask for. -/
  | sweeping (openSerials : List Str)
  /-- It has learnt that a serial number is revoked. -/
  | closing (certSerial : Str) (openSerials : List Str)
  deriving DecidableEq, Repr

/-- The hub. -/
structure State where
  /-- The tables. -/
  db : Db
  /-- The registry and the guards of the open connections. -/
  connections : Connections := {}
  /-- The serial numbers of the handshakes that are verified and not registered yet. -/
  verified : List Str := []
  /-- The session listens and has not been lost. -/
  listening : Bool := false
  /-- The notifications that the listener has not taken yet. -/
  queue : List Notification := []
  /-- The thread. -/
  phase : Phase := .connecting

/-- What happens. -/
inductive Event
  | verify (certSerial : Str)
  | register (guard : ConnectionGuard)
  | drop (guard : ConnectionGuard)
  | revoke (deviceId : ℕ)
  | resetAll
  | lost
  | connect
  | elapsed
  | failed
  | notified (n : Notification)
  | closeReceived
  | collect (openSerials : List Str)
  | answered (certSerial : Str) (answer : Except Error (Option ℕ))
  | close (certSerial : Str)
  | wait

/-- A notification is committed: only a session that listens receives it. -/
def State.notify (s : State) : Option Notification → State
  | none => s
  | some n => if s.listening = true then { s with queue := s.queue ++ [n] } else s

/-- One step. -/
inductive Step : State → Event → State → Prop
  | verify (s : State) {certSerial : Str}
      (h : verifyClientCert (.ok ()) (some certSerial)
        (.ok (s.db.findDeviceByCertSerial certSerial)) = .ok ()) :
      Step s (.verify certSerial) { s with verified := certSerial :: s.verified }
  -- `accept` goes on after the handshake
  | register (s : State) {certSerial : Str} {connections : Connections} {guard : ConnectionGuard}
      (hverified : certSerial ∈ s.verified)
      (hguard : guard = (s.connections.registry.register certSerial).2.1)
      (h : Hub.Step s.connections (.register guard) connections) :
      Step s (.register guard) { s with
        connections := connections
        verified := s.verified.erase certSerial }
  | drop (s : State) {connections : Connections} {guard : ConnectionGuard}
      (h : Hub.Step s.connections (.drop guard) connections) :
      Step s (.drop guard) { s with connections := connections }
  -- the update and `pg_notify` are one transaction
  | revoke (s : State) (now deviceId : ℕ) :
      Step s (.revoke deviceId) (State.notify { s with db := (s.db.revokeDevice now deviceId).2 }
        (revocationNotice (s.db.revokeDevice now deviceId).1))
  | resetAll (s : State) :
      Step s .resetAll (s.notify (some ⟨notifyChannel, resetAllPayload⟩))
  | lost (s : State) : Step s .lost { s with listening := false }
  | connect (s : State) (h : s.phase = .connecting) :
      Step s .connect { s with listening := true, queue := [], phase := .waiting }
  -- `None => return Ok(())`, for a timeout as for a session that the server has closed
  | elapsed (s : State) (h : s.phase = .waiting) :
      Step s .elapsed { s with listening := false, phase := .connecting }
  | failed (s : State) (h : s.phase = .waiting) (hlost : s.listening = false) :
      Step s .failed { s with phase := .connecting }
  | notified (s : State) {n : Notification} {queue : List Notification} (h : s.phase = .waiting)
      (hqueue : s.queue = n :: queue) :
      Step s (.notified n) { s with queue := queue, phase := .ended n.received }
  | closeReceived (s : State) {received : Option Str} (h : s.phase = .ended received) :
      Step s .closeReceived { s with
        connections := ⟨s.connections.registry.closeReceived received, s.connections.guards⟩
        phase := .collecting }
  -- the map has no order
  | collect (s : State) {openSerials : List Str} (h : s.phase = .collecting)
      (hperm : openSerials.Perm s.connections.registry.connections.keys) :
      Step s (.collect openSerials) { s with phase := .sweeping openSerials }
  | answered (s : State) {certSerial : Str} {openSerials : List Str}
      {answer : Except Error (Option ℕ)} (h : s.phase = .sweeping (certSerial :: openSerials))
      (hanswer : ∀ revokedAt, answer = .ok revokedAt →
        s.listening = true ∧ revokedAt = s.db.findRevokedAt certSerial) :
      Step s (.answered certSerial answer) { s with
        phase := if isRevoked answer = true then .closing certSerial openSerials
          else .sweeping openSerials }
  | close (s : State) {certSerial : Str} {openSerials : List Str}
      (h : s.phase = .closing certSerial openSerials) :
      Step s (.close certSerial) { s with
        connections := ⟨(s.connections.registry.closeDevice certSerial).2, s.connections.guards⟩
        phase := .sweeping openSerials }
  | wait (s : State) (h : s.phase = .sweeping []) : Step s .wait { s with phase := .waiting }

/-- The event ends a wait. -/
def Event.EndsWait : Event → Prop
  | elapsed | notified _ => True
  | _ => False

/-- The token of the connection is cancelled, or the connection has ended. -/
def Closed (s : State) (g : ConnectionGuard) : Prop :=
  g.id ∈ s.connections.registry.cancelled ∨ g ∉ s.connections.guards

/-- The connections that are open when a wait ends in `s`, and whose devices are revoked then, are
closed whenever the thread waits after `s'`. -/
def Closes (step : State → Event → State → Prop) (s s' : State) : Prop :=
  ∀ es s'', Trace.Run step s' es s'' → s''.phase = .waiting →
    ∀ g ∈ s.connections.guards, s.db.Revoked g.certSerial → Closed s'' g

/-- The database answers the query of a sweep for a device that is revoked. -/
def Answered (s : State) : Event → Prop
  | .answered certSerial (.error _) => ¬ s.db.Revoked certSerial
  | _ => True

/-- A step in which the database answers. -/
def AnsweredStep (s : State) (e : Event) (s' : State) : Prop := Answered s e ∧ Step s e s'

/-! ### The registry of the hub -/

@[simp] theorem notify_connections (s : State) (n : Option Notification) :
    (s.notify n).connections = s.connections := by
  cases n with
  | none => rfl
  | some n =>
    unfold State.notify
    dsimp only
    split_ifs <;> rfl

@[simp] theorem notify_db (s : State) (n : Option Notification) : (s.notify n).db = s.db := by
  cases n with
  | none => rfl
  | some n =>
    unfold State.notify
    dsimp only
    split_ifs <;> rfl

@[simp] theorem notify_phase (s : State) (n : Option Notification) :
    (s.notify n).phase = s.phase := by
  cases n with
  | none => rfl
  | some n =>
    unfold State.notify
    dsimp only
    split_ifs <;> rfl

theorem step_closeReceived (s : Connections) (received : Option Str) :
    (⟨s.registry.closeReceived received, s.guards⟩ : Connections) = s ∨
      ∃ e, Hub.Step s e ⟨s.registry.closeReceived received, s.guards⟩ := by
  cases received with
  | none => exact .inl rfl
  | some payload =>
    unfold ConnectionRegistry.closeReceived
    dsimp only
    split_ifs
    · exact .inr ⟨_, .closeAll s⟩
    · exact .inr ⟨_, .closeDevice s payload⟩

/-- A step of the hub is at most one operation on the registry. -/
theorem Step.connections {s s' : State} {e : Event} (h : Step s e s') :
    s'.connections = s.connections ∨ ∃ e', Hub.Step s.connections e' s'.connections := by
  cases h with
  | register _ _ h => exact .inr ⟨_, h⟩
  | drop h => exact .inr ⟨_, h⟩
  | revoke now deviceId => exact .inl (notify_connections _ _)
  | resetAll => exact .inl (notify_connections _ _)
  | closeReceived h => exact step_closeReceived s.connections _
  | close h => exact .inr ⟨_, .closeDevice _ _⟩
  | _ => exact .inl rfl

/-- **A run of the hub is a history of the registry.** -/
theorem exists_accounts {db : Db} {es : List Event} {s : State}
    (run : Trace.Run Step { db := db } es s) : ∃ es', Accounts es' s.connections := by
  suffices h : ∃ es', Trace.Run Hub.Step {} es' s.connections from
    h.imp fun _ h => Accounts.run h
  refine run.invariant (I := fun s => ∃ es', Trace.Run Hub.Step {} es' s.connections) ?_
    ⟨[], .nil _⟩
  rintro s e s' ⟨es', h⟩ hstep
  rcases hstep.connections with heq | ⟨e', h'⟩
  · rw [heq]
    exact ⟨es', h⟩
  · exact ⟨_, h.append (.single h')⟩

/-- What an operation on the registry leaves of an old connection. -/
theorem entry_of_step {s s' : Connections} {e : Hub.Event} (h : Hub.Step s e s')
    {g : ConnectionGuard} (hg : g.id < s.registry.nextId) :
    g.id < s'.registry.nextId ∧
      ((s'.registry.entry g).isSome = true → (s.registry.entry g).isSome = true) := by
  cases h with
  | register certSerial =>
    refine ⟨hg.trans (Nat.lt_succ_self _), fun h => ?_⟩
    rwa [ConnectionRegistry.entry_register, if_neg] at h
    rintro rfl
    exact lt_irrefl _ hg
  | drop hguard =>
    refine ⟨by rwa [ConnectionRegistry.nextId_deregister], fun h => ?_⟩
    rw [ConnectionRegistry.entry_deregister] at h
    split_ifs at h
    · cases h
    · exact h
  | closeDevice certSerial =>
    refine ⟨by rwa [ConnectionRegistry.nextId_closeDevice], fun h => ?_⟩
    rw [ConnectionRegistry.entry_closeDevice] at h
    split_ifs at h
    · cases h
    · exact h
  | closeAll =>
    refine ⟨hg, fun h => ?_⟩
    rw [ConnectionRegistry.entry_closeAll] at h
    cases h

theorem mem_keys_of_entry {r : ConnectionRegistry} {g : ConnectionGuard}
    (h : (r.entry g).isSome = true) : g.certSerial ∈ r.connections.keys := by
  obtain ⟨t, ht⟩ := Option.isSome_iff_exists.1 h
  obtain ⟨m, hm, -⟩ := (r.entry_eq_some_iff g).1 ht
  exact AList.mem_keys.1 (AList.lookup_isSome.1 (Option.isSome_iff_exists.2 ⟨m, hm⟩))

theorem closed_iff_entry {es : List Hub.Event} {s : State} (h : Accounts es s.connections)
    (g : ConnectionGuard) : Closed s g ↔ ¬ (s.connections.registry.entry g).isSome = true := by
  rw [h.entry_isSome, ← h.guards.2, not_and_or, not_not, or_comm]
  unfold Closed
  constructor
  · rintro (hcancelled | hguard)
    · by_cases hguard : g ∈ s.connections.guards
      · obtain ⟨g', hid, hclosed⟩ := (h.cancelled _).1 hcancelled
        have heq : g' = g :=
          h.unique g' g hclosed.register_mem ((h.guards.2 g).1 hguard).1 hid
        exact .inl (heq ▸ hclosed)
      · exact .inr hguard
    · exact .inr hguard
  · rintro (hclosed | hguard)
    · exact .inl ((h.cancelled _).2 ⟨g, rfl, hclosed⟩)
    · exact .inr hguard

/-! ### Between two waits -/

/-- The thread will still ask for the serial number, or close its connections. -/
def Phase.Covers : Phase → Str → Prop
  | .connecting, _ | .waiting, _ => False
  | .ended _, _ | .collecting, _ => True
  | .sweeping openSerials, c => c ∈ openSerials
  | .closing certSerial openSerials, c => c = certSerial ∨ c ∈ openSerials

/-- The connection of a revoked device is closed, or the thread will close it. -/
structure Owed (g : ConnectionGuard) (s : State) : Prop where
  /-- Its number is used. -/
  fresh : g.id < s.connections.registry.nextId
  /-- Its device is revoked. -/
  revoked : s.db.Revoked g.certSerial
  /-- If it is in the registry, then the thread is not done with it. -/
  pending : (s.connections.registry.entry g).isSome = true → s.phase.Covers g.certSerial

namespace Owed

variable {g : ConnectionGuard} {s s' : State}

theorem of_phase (h : Owed g s) {e : Event} (hstep : Step s e s')
    (hdb : s'.db.Revoked g.certSerial) (hphase : s'.phase = s.phase) : Owed g s' := by
  rcases hstep.connections with heq | ⟨e', hconnections⟩
  · exact ⟨heq ▸ h.fresh, hdb, fun hg => hphase ▸ h.pending (heq ▸ hg)⟩
  · obtain ⟨hfresh, hentry⟩ := entry_of_step hconnections h.fresh
    exact ⟨hfresh, hdb, fun hg => hphase ▸ h.pending (hentry hg)⟩

/-- **What is owed stays owed, as long as the database answers.** -/
theorem step (h : Owed g s) {e : Event} (hstep : AnsweredStep s e s') : Owed g s' := by
  obtain ⟨hanswered, hstep⟩ := hstep
  have hstep' := hstep
  cases hstep' with
  | verify _ => exact h.of_phase hstep h.revoked rfl
  | register _ _ _ => exact h.of_phase hstep h.revoked rfl
  | drop _ => exact h.of_phase hstep h.revoked rfl
  | revoke now deviceId =>
    refine h.of_phase hstep ?_ (notify_phase _ _)
    rw [notify_db]
    exact h.revoked.revokeDevice now deviceId
  | resetAll => exact h.of_phase hstep (by rw [notify_db]; exact h.revoked) (notify_phase _ _)
  | lost => exact h.of_phase hstep h.revoked rfl
  | connect hphase =>
    refine ⟨h.fresh, h.revoked, fun hg => ?_⟩
    have hpending := h.pending hg
    rwa [hphase] at hpending
  | elapsed hphase =>
    refine ⟨h.fresh, h.revoked, fun hg => ?_⟩
    have hpending := h.pending hg
    rwa [hphase] at hpending
  | failed hphase _ =>
    refine ⟨h.fresh, h.revoked, fun hg => ?_⟩
    have hpending := h.pending hg
    rwa [hphase] at hpending
  | notified hphase hqueue => exact ⟨h.fresh, h.revoked, fun _ => trivial⟩
  | @closeReceived received hphase =>
    refine ⟨?_, h.revoked, fun _ => trivial⟩
    rcases step_closeReceived s.connections received with heq | ⟨e', hconnections⟩
    · have hregistry := congrArg Connections.registry heq
      dsimp only at hregistry ⊢
      rw [hregistry]
      exact h.fresh
    · exact (entry_of_step hconnections h.fresh).1
  | collect hphase hperm =>
    -- the serial numbers are collected at once, so a connection that is open is asked for
    exact ⟨h.fresh, h.revoked, fun hg => hperm.mem_iff.2 (mem_keys_of_entry hg)⟩
  | @answered certSerial openSerials answer hphase hanswer =>
    refine ⟨h.fresh, h.revoked, fun hg => ?_⟩
    have hpending := h.pending hg
    rw [hphase] at hpending
    dsimp only
    split_ifs with hrevoked
    · exact List.mem_cons.1 hpending
    · refine (List.mem_cons.1 hpending).resolve_left fun hc => hrevoked ?_
      rcases answer with error | revokedAt
      · exact absurd (hc ▸ h.revoked) hanswered
      · obtain ⟨-, rfl⟩ := hanswer revokedAt rfl
        exact Db.findRevokedAt_isSome.2 (hc ▸ h.revoked)
  | @close certSerial openSerials hphase =>
    have hentry := entry_of_step (.closeDevice s.connections certSerial) h.fresh
    refine ⟨hentry.1, h.revoked, fun hg => ?_⟩
    have hpending := h.pending (hentry.2 hg)
    rw [hphase] at hpending
    refine hpending.resolve_left fun hc => ?_
    dsimp only at hg
    rw [ConnectionRegistry.entry_closeDevice, if_pos hc] at hg
    cases hg
  | wait hphase =>
    refine ⟨h.fresh, h.revoked, fun hg => ?_⟩
    have hpending := h.pending hg
    rw [hphase] at hpending
    exact absurd hpending List.not_mem_nil

/-- What is owed is closed whenever the thread waits. -/
theorem run (h : Owed g s) {es : List Event} (run : Trace.Run AnsweredStep s es s')
    (hphase : s'.phase = .waiting) : ¬ (s'.connections.registry.entry g).isSome = true := by
  have h' := run.invariant (I := Owed g) (fun _ _ _ h hstep => h.step hstep) h
  intro hg
  have hpending := h'.pending hg
  rwa [hphase] at hpending

end Owed

/-! ### When a wait has ended -/

theorem run_step {s s' : State} {es : List Event} (run : Trace.Run AnsweredStep s es s') :
    Trace.Run Step s es s' := by
  have h := run.map id fun _ _ _ h => h.2
  rwa [List.map_id] at h

/-- **After a wait the connections of the devices that were revoked by then are closed before the
next wait, exactly when the wait has not timed out over such a connection.** -/
theorem closes_iff {db : Db} {es : List Event} {s s' : State} {e : Event}
    (run : Trace.Run Step { db := db } es s) (hstep : Step s e s') (hend : e.EndsWait) :
    Closes AnsweredStep s s' ↔ (e = .elapsed → ∀ g ∈ s.connections.guards,
      s.db.Revoked g.certSerial → g.id ∈ s.connections.registry.cancelled) := by
  obtain ⟨es', haccounts⟩ := exists_accounts run
  constructor
  · rintro hcloses rfl g hg hrevoked
    cases hstep with
    | elapsed hphase =>
      -- the thread connects again and waits, and nothing has changed for the connection
      have hconnect := hcloses [.connect] _ (.single ⟨trivial, .connect _ rfl⟩) rfl g hg hrevoked
      exact hconnect.resolve_right fun hnot => hnot hg
  · intro helapsed es₂ s₂ run₂ hphase₂ g hg hrevoked
    have hfresh : g.id < s.connections.registry.nextId :=
      haccounts.fresh g ((haccounts.guards.2 g).1 hg).1
    have howed : Owed g s' := by
      cases hstep with
      | elapsed hphase =>
        refine ⟨hfresh, hrevoked, fun hentry => absurd hentry ?_⟩
        exact (closed_iff_entry haccounts g).1 (.inl (helapsed rfl g hg hrevoked))
      | notified hphase hqueue => exact ⟨hfresh, hrevoked, fun _ => trivial⟩
      | _ => exact absurd hend (by simp [Event.EndsWait])
    obtain ⟨es₂', haccounts₂⟩ :=
      exists_accounts ((run.append (.single hstep)).append (run_step run₂))
    exact (closed_iff_entry haccounts₂ g).2 (howed.run run₂ hphase₂)

/-- A tenant with a device. -/
def exampleDb : Db where
  tenants := [⟨1, "alice".toList, false, true, some 0, 0⟩]
  devices := [⟨1, 1, "ssh-ed25519 AAAA".toList, 0, none, some ("-----BEGIN".toList),
    some ("0a".toList), some 0, some 90⟩]
  nextTenantId := 2
  nextDeviceId := 2

/-- The device has a connection and is revoked while the thread waits: the notification closes the
connection before the next wait. -/
theorem closes_exampleNotified : ∃ es s s', Trace.Run Step { db := exampleDb } es s ∧
    Step s (.notified ⟨notifyChannel, "0a".toList⟩) s' ∧ s.db.Revoked ("0a".toList) ∧
    ⟨"0a".toList, 0⟩ ∈ s.connections.guards ∧ Closes AnsweredStep s s' := by
  have run : Trace.Run Step { db := exampleDb }
      [.connect, .verify ("0a".toList), .register ⟨"0a".toList, 0⟩, .revoke 1] _ :=
    .cons (.connect _ rfl) (.cons (.verify _ rfl)
      (.cons (.register _ List.mem_cons_self rfl (.register _ _)) (.single (.revoke _ 5 1))))
  refine ⟨_, _, _, run, .notified _ rfl rfl, ⟨_, List.mem_cons_self, rfl, rfl⟩,
    List.mem_cons_self, ?_⟩
  exact (closes_iff run (.notified _ rfl rfl) trivial).2 (fun h => by cases h)

/-- Every wait closes the connections of the devices that were revoked when it ended. -/
def ClosesRevoked : Prop :=
  ∀ db es s e s', Trace.Run Step { db := db } es s → Step s e s' → e.EndsWait → Closes Step s s'

/-- The device is verified, revoked while the thread has no session, and registered; then a wait
times out, and the thread waits again with the connection open. -/
theorem not_closesRevoked : ¬ ClosesRevoked := by
  intro hcloses
  have run : Trace.Run Step { db := exampleDb }
      [.verify ("0a".toList), .revoke 1, .register ⟨"0a".toList, 0⟩, .connect] _ :=
    .cons (.verify _ rfl) (.cons (.revoke _ 5 1)
      (.cons (.register _ List.mem_cons_self rfl (.register _ _)) (.single (.connect _ rfl))))
  have hclosed := hcloses _ _ _ _ _ run (.elapsed _ rfl) trivial [.connect] _
    (.single (.connect _ rfl)) rfl ⟨"0a".toList, 0⟩ List.mem_cons_self
    ⟨_, List.mem_cons_self, rfl, rfl⟩
  rcases hclosed with hcancelled | hguard
  · exact absurd hcancelled List.not_mem_nil
  · exact hguard List.mem_cons_self

end Listener

end Hub

end Wkp
