import Wkp.Cli.HubRegister
import Wkp.Hub.Asked
import Wkp.Lib.Triple

/-!
# A client and the hub

`wkp hub register` and the hub together: each request of the client is handled by a process of the hub,
while anything else goes on there.

* `Cli.Registering` : the client and the hub; `Cli.RegisterExec` : the calls of the client.
* `Cli.Certified` : the hub has enrolled the key of the client for its tenant, with a certificate.
* `Cli.register_certifies` : **a client that succeeds has a certificate for its own key and its own
  tenant.**
* `Cli.writes_certified` : **the client writes nothing unless the hub has enrolled it.**
* `Cli.register_ends` : **the client stops after 120 polls.**
-/

namespace Wkp

open Rust Hub

namespace Cli

/-! ### The client and the hub -/

/-- The client and the hub, with the history of the hub. -/
structure Registering where
  /-- The processes of the hub, and its tables. -/
  hub : Pool (Handler Rendered) Hub.World
  /-- What happened in the hub. -/
  events : List HubEvent
  /-- The clock of the client, in nanoseconds. -/
  clock : ℕ
  /-- The files of the client. -/
  files : Str → Option Str

variable {C : Crypto} {identity : HubIdentity}

/-- The hub goes on, and time passes. -/
structure Meanwhile (C : Crypto) (s s' : Registering) : Prop where
  /-- The hub. -/
  hub : ∃ ls, HubRun C s.hub ls s'.hub ∧ s'.events = s.events ++ ls
  /-- The time. -/
  clock : s.clock ≤ s'.clock
  /-- The files stay. -/
  files : s'.files = s.files

/-- A process of the hub handles a request, while the hub goes on. -/
structure Handles (C : Crypto) (p : Handler Rendered) (response : Rendered) (s s' : Registering) :
    Prop where
  /-- The hub. -/
  hub : ∃ ls₁ ls₂ pool i, HubRun C s.hub ls₁ pool ∧ pool.threads i = some p ∧
    HubRun C pool ls₂ s'.hub ∧ s'.hub.threads i = some (.pure response) ∧
    s'.events = s.events ++ ls₁ ++ ls₂
  /-- The time. -/
  clock : s.clock ≤ s'.clock
  /-- The files stay. -/
  files : s'.files = s.files

/-- A call of the client. -/
inductive RegisterExec (C : Crypto) (identity : HubIdentity) :
    Registering → Program.Exchange RegisterCall.Reply → Registering → Prop
  | deviceId {s s' : Registering} {path text : Str} (h : Meanwhile C s s')
      (htext : s'.files path = some text) (hne : trim text ≠ []) :
      RegisterExec C identity s ⟨.deviceId path, .ok (trim text)⟩ s'
  | newDeviceId {s s' : Registering} (path id : Str) (h : Meanwhile C s s')
      (hblank : ∀ text, s'.files path = some text → trim text = []) :
      RegisterExec C identity s ⟨.deviceId path, .ok id⟩
        { s' with files := Function.update s'.files path (some (id ++ ['\n'])) }
  | noDeviceId {s s' : Registering} (path e : Str) (left : Option Str) (h : Meanwhile C s s')
      (hblank : ∀ text, s'.files path = some text → trim text = []) :
      RegisterExec C identity s ⟨.deviceId path, .error e⟩
        { s' with files := Function.update s'.files path left }
  -- without a key store the identity is in a file, which is made once and never written again
  | ensureIdentity {s s' : Registering} (deviceId : Str) {path : Str} {left : Option Str}
      (h : Meanwhile C s s') (hleft : ∀ text, s'.files path = some text → left = some text) :
      RegisterExec C identity s ⟨.ensureIdentity deviceId path, .ok identity⟩
        { s' with files := Function.update s'.files path left }
  | noIdentity {s s' : Registering} (deviceId e : Str) {path : Str} {left : Option Str}
      (h : Meanwhile C s s') (hleft : ∀ text, s'.files path = some text → left = some text) :
      RegisterExec C identity s ⟨.ensureIdentity deviceId path, .error e⟩
        { s' with files := Function.update s'.files path left }
  | readFile {s s' : Registering} (path : Str) (r : Except Str (List UInt8)) (h : Meanwhile C s s') :
      RegisterExec C identity s ⟨.readFile path, r⟩ s'
  | report {s s' : Registering} (message : Str) (h : Meanwhile C s s') :
      RegisterExec C identity s ⟨.report message, .ok ()⟩ s'
  | now {s s' : Registering} (h : Meanwhile C s s') :
      RegisterExec C identity s ⟨.now, .ok s'.clock⟩ s'
  | sleep {s s' : Registering} {secs : ℕ} (h : Meanwhile C s s')
      (hclock : s.clock + fromSecs secs ≤ s'.clock) :
      RegisterExec C identity s ⟨.sleep secs, .ok ()⟩ s'
  | code {s s' : Registering} (url : Str) {tenantSlug csrPem deviceCode userCode : Str}
      {response : Rendered} (h : Handles C
        (handleDeviceCode C (.ok (tenantSlug, csrPem)) deviceCode userCode) response s s') :
      RegisterExec C identity s ⟨.postCode url tenantSlug csrPem, .ok response⟩ s'
  | token {s s' : Registering} (url : Str) {deviceCode : Str} {response : Rendered}
      (h : Handles C (handleDeviceToken C (.ok deviceCode)) response s s') :
      RegisterExec C identity s ⟨.postToken url deviceCode, .ok response⟩ s'
  -- the front door answers itself, without a handler
  | codeTurned {s s' : Registering} (url tenantSlug csrPem : Str) (status : ℕ)
      (h : Meanwhile C s s') :
      RegisterExec C identity s ⟨.postCode url tenantSlug csrPem, .ok ⟨status, .empty⟩⟩ s'
  | tokenTurned {s s' : Registering} (url deviceCode : Str) (status : ℕ) (h : Meanwhile C s s') :
      RegisterExec C identity s ⟨.postToken url deviceCode, .ok ⟨status, .empty⟩⟩ s'
  -- the request or the response is lost, and the hub may have handled it
  | codeLost {s s' : Registering} (url tenantSlug csrPem e : Str) (h : Meanwhile C s s') :
      RegisterExec C identity s ⟨.postCode url tenantSlug csrPem, .error e⟩ s'
  | tokenLost {s s' : Registering} (url deviceCode e : Str) (h : Meanwhile C s s') :
      RegisterExec C identity s ⟨.postToken url deviceCode, .error e⟩ s'
  | write {s s' : Registering} (secret : Bool) (path contents : Str) (h : Meanwhile C s s') :
      RegisterExec C identity s ⟨.writeFile secret path contents, .ok ()⟩
        { s' with files := Function.update s'.files path (some contents) }
  -- a write that fails may leave anything
  | torn {s s' : Registering} (secret : Bool) (path contents e : Str) (left : Option Str)
      (h : Meanwhile C s s') :
      RegisterExec C identity s ⟨.writeFile secret path contents, .error e⟩
        { s' with files := Function.update s'.files path left }

/-! ### What the client knows -/

/-- The hub is one that was empty once, and the files of the client are the given ones. -/
structure Standing (C : Crypto) (files : Str → Option Str) (s : Registering) : Prop where
  /-- The hub. -/
  known : Known C s.events s.hub
  /-- The files. -/
  files_eq : s.files = files

theorem Handles.meanwhile {p : Handler Rendered} {response : Rendered} {s s' : Registering}
    (h : Handles C p response s s') : Meanwhile C s s' := by
  obtain ⟨ls₁, ls₂, pool, i, run₁, -, run₂, -, hevents⟩ := h.hub
  exact ⟨⟨ls₁ ++ ls₂, run₁.append run₂, by rw [hevents, List.append_assoc]⟩, h.clock, h.files⟩

theorem Meanwhile.standing {files : Str → Option Str} {s s' : Registering} (h : Meanwhile C s s')
    (hs : Standing C files s) : Standing C files s' ∧ s.hub.state.db.Grows s'.hub.state.db := by
  obtain ⟨ls, run, hevents⟩ := h.hub
  obtain ⟨hknown, hgrows⟩ := hs.known.run run
  exact ⟨⟨by rwa [hevents], h.files.trans hs.files_eq⟩, hgrows⟩

/-- The hub has enrolled the key of the request for the tenant, with the certificate. -/
def Certified (C : Crypto) (tenantSlug csrPem : Str) (token : TokenSuccessResponse)
    (s : Registering) : Prop :=
  ∃ deviceCode, ∃ grant ∈ s.hub.state.db.grants, ∃ tenant ∈ s.hub.state.db.tenants,
    ∃ device ∈ s.hub.state.db.devices, Enrollment C s.events deviceCode token grant tenant device ∧
      grant.csrPem = csrPem ∧ tenant.slug = tenantSlug

theorem certified_of_granted {files : Str → Option Str} {s : Registering} (hs : Standing C files s)
    {tenantSlug csrPem deviceCode : Str} {token : TokenSuccessResponse}
    (hgranted : s.hub.state.db.Granted tenantSlug csrPem deviceCode)
    (henrolled : Enrolled C s.events s.hub.state.db deviceCode token) :
    Certified C tenantSlug csrPem token s := by
  have hwf := hs.known.wellFormed
  obtain ⟨g, hg, hcode, hcsr, t, ht, htid, hslug⟩ := hgranted
  obtain ⟨grant, hgrant, tenant, htenant, device, hdevice, h⟩ := henrolled
  obtain rfl := hwf.deviceCode.eq_of_key_eq hg hgrant (hcode.trans h.deviceCode_eq.symm)
  obtain rfl := hwf.tenantId.eq_of_key_eq ht htenant (htid.trans h.tenantId_eq)
  exact ⟨deviceCode, g, hg, t, ht, device, hdevice, h, hcsr, hslug⟩

theorem Meanwhile.certified {files : Str → Option Str} {s s' : Registering} (h : Meanwhile C s s')
    (hs : Standing C files s) {tenantSlug csrPem : Str} {token : TokenSuccessResponse}
    (hc : Certified C tenantSlug csrPem token s) : Certified C tenantSlug csrPem token s' := by
  obtain ⟨deviceCode, grant, hgrant, tenant, htenant, device, hdevice, he, hcsr, hslug⟩ := hc
  obtain ⟨hs', hgrows⟩ := h.standing hs
  obtain ⟨ls, -, hevents⟩ := h.hub
  have hsub : s.events ⊆ s'.events := by
    rw [hevents]
    exact List.subset_append_left _ _
  have hgranted : s.hub.state.db.Granted tenantSlug csrPem deviceCode :=
    ⟨grant, hgrant, he.deviceCode_eq, hcsr, tenant, htenant, he.tenantId_eq.symm, hslug⟩
  have henrolled : Enrolled C s.events s.hub.state.db deviceCode token :=
    ⟨grant, hgrant, tenant, htenant, device, hdevice, he⟩
  exact certified_of_granted hs' (hgranted.mono hgrows) (henrolled.mono hsub hgrows)

/-! ### Responses -/

section Responses

variable {files : Str → Option Str} {s s' : Registering} {response : Rendered}

theorem Handles.granted {tenantSlug csrPem deviceCode userCode : Str}
    (h : Handles C (handleDeviceCode C (.ok (tenantSlug, csrPem)) deviceCode userCode) response s s')
    (hs : Standing C files s) {code : DeviceCodeResponse} (hbody : response.body = .deviceCode code) :
    s'.hub.state.db.Granted tenantSlug csrPem code.deviceCode ∧ code.expiresIn = grantTtl ∧
      code.interval = pollIntervalSeconds := by
  obtain ⟨ls₁, ls₂, pool, i, run₁, hask, run₂, hdone, -⟩ := h.hub
  obtain ⟨status, body⟩ := response
  obtain rfl : body = .deviceCode code := hbody
  exact (hs.known.run run₁).1.granted hask run₂ hdone

theorem Handles.enrolled {deviceCode : Str}
    (h : Handles C (handleDeviceToken C (.ok deviceCode)) response s s') (hs : Standing C files s)
    {token : TokenSuccessResponse} (hbody : response.body = .token token) :
    Enrolled C s'.events s'.hub.state.db deviceCode token := by
  obtain ⟨ls₁, ls₂, pool, i, run₁, hpoll, run₂, hdone, hevents⟩ := h.hub
  obtain ⟨status, body⟩ := response
  obtain rfl : body = .token token := hbody
  rw [hevents]
  exact (hs.known.run run₁).1.enrolled hpoll run₂ hdone

end Responses

/-! ### Calls -/

/-- The call writes no file. -/
def RegisterCall.Reads : RegisterCall → Prop
  | deviceId _ | ensureIdentity _ _ | writeFile _ _ _ => False
  | _ => True

section Calls

variable {s s' : Registering} {e : Program.Exchange RegisterCall.Reply}

theorem Meanwhile.of_exec (h : RegisterExec C identity s e s') (hread : e.1.Reads) :
    Meanwhile C s s' := by
  cases h with
  | code _ h | token _ h => exact h.meanwhile
  | deviceId | newDeviceId | noDeviceId | ensureIdentity | noIdentity | write | torn =>
    exact hread.elim
  | sleep h => exact h
  | _ => assumption

theorem RegisterExec.clock_le (h : RegisterExec C identity s e s') : s.clock ≤ s'.clock := by
  cases h with
  | code _ h | token _ h => exact h.clock
  | deviceId h | newDeviceId _ _ h | noDeviceId _ _ _ h | ensureIdentity _ h | noIdentity _ _ h
  | write _ _ _ h | torn _ _ _ _ _ h => exact h.clock
  | sleep h => exact h.clock
  | _ => exact Meanwhile.clock ‹_›

end Calls

/-! ### Rules for the client -/

/-- What holds whatever else goes on. -/
def Lasting (C : Crypto) (I : Registering → Prop) : Prop := ∀ s s', I s → Meanwhile C s s' → I s'

section Rules

variable {α β : Type} {I : Registering → Prop} {Q : Except Str α → Registering → Prop}

theorem lasting_standing (files : Str → Option Str) : Lasting C (Standing C files) :=
  fun _ _ hs h => (h.standing hs).1

theorem triple_callOr_bind {c : RegisterCall} {context : Str → Str} {f : c.Result → Registration α}
    (hI : Lasting C I) (hread : c.Reads) (herror : ∀ e s, I s → Q (.error e) s)
    (hf : ∀ a, Script.Triple (RegisterExec C identity) I (f a) Q) :
    Script.Triple (RegisterExec C identity) I (callOr context c >>= f) Q :=
  .bind (R := fun _ s => I s)
    (.perform fun s _ s' hs hexec => hI s s' hs (.of_exec hexec hread)) hf herror

theorem triple_valueOr_bind {value : Except Str β} {context : Str → Str} {f : β → Registration α}
    (herror : ∀ e s, I s → Q (.error e) s)
    (hf : ∀ a, value = .ok a → Script.Triple (RegisterExec C identity) I (f a) Q) :
    Script.Triple (RegisterExec C identity) I (valueOr context value >>= f) Q := by
  cases value with
  | error e => exact .value fun s hs => herror _ s hs
  | ok a => exact hf a rfl

theorem triple_sent_bind {what : String} {a : β} {f : β → Registration α}
    (hf : Script.Triple (RegisterExec C identity) I (f a) Q) :
    Script.Triple (RegisterExec C identity) I (sent what (some a) >>= f) Q :=
  hf

end Rules

/-! ### What the client writes -/

/-- The name of the device. -/
def HubRegisterOptions.deviceIdPath (opts : HubRegisterOptions) : Str :=
  Path.joinStr opts.path deviceIdFile

/-- The signing identity, where there is no key store. -/
def HubRegisterOptions.identityPath (opts : HubRegisterOptions) : Str :=
  Path.joinStr opts.path signingIdentityFallback

/-- The certificate of the device. -/
def HubRegisterOptions.certPath (opts : HubRegisterOptions) : Str :=
  Path.joinStr opts.path deviceCertFile

/-- The certificate of the hub. -/
def HubRegisterOptions.caPath (opts : HubRegisterOptions) : Str := Path.joinStr opts.path caCertFile

/-- The private key. -/
def HubRegisterOptions.keyPath (opts : HubRegisterOptions) : Str :=
  Path.joinStr opts.path deviceKeyPemFile

section Files

variable {opts : HubRegisterOptions}

theorem deviceIdPath_ne_identityPath : opts.deviceIdPath ≠ opts.identityPath :=
  Path.joinStr_ne (by decide) (by decide) (by decide)

theorem certPath_ne_caPath : opts.certPath ≠ opts.caPath :=
  Path.joinStr_ne (by decide) (by decide) (by decide)

theorem keyPath_ne_certPath : opts.keyPath ≠ opts.certPath :=
  Path.joinStr_ne (by decide) (by decide) (by decide)

theorem keyPath_ne_caPath : opts.keyPath ≠ opts.caPath :=
  Path.joinStr_ne (by decide) (by decide) (by decide)

/-- What the client may have written before it asks: the name of the device, and the signing identity,
where there was none. -/
structure Prepared (opts : HubRegisterOptions) (files files' : Str → Option Str) : Prop where
  /-- The other files stay. -/
  frame : ∀ path, path ≠ opts.deviceIdPath → path ≠ opts.identityPath → files' path = files path
  /-- A name stays. -/
  deviceId : ∀ text, files opts.deviceIdPath = some text → trim text ≠ [] →
    files' opts.deviceIdPath = some text
  /-- An identity stays. -/
  identity : ∀ text, files opts.identityPath = some text → files' opts.identityPath = some text

theorem Prepared.refl (files : Str → Option Str) : Prepared opts files files :=
  ⟨fun _ _ _ => rfl, fun _ h _ => h, fun _ h => h⟩

theorem prepared_deviceId {files : Str → Option Str}
    (hblank : ∀ text, files opts.deviceIdPath = some text → trim text = []) (left : Option Str) :
    Prepared opts files (Function.update files opts.deviceIdPath left) where
  frame _ hid _ := Function.update_of_ne hid _ _
  deviceId text htext hne := absurd (hblank text htext) hne
  identity _ h := (Function.update_of_ne deviceIdPath_ne_identityPath.symm _ _).trans h

theorem Prepared.update {files files' : Str → Option Str} (h : Prepared opts files files')
    {left : Option Str} (hleft : ∀ text, files' opts.identityPath = some text → left = some text) :
    Prepared opts files (Function.update files' opts.identityPath left) where
  frame path hid hidentity := (Function.update_of_ne hidentity _ _).trans (h.frame path hid hidentity)
  deviceId text htext hne := (Function.update_of_ne deviceIdPath_ne_identityPath _ _).trans
    (h.deviceId text htext hne)
  identity text htext := (Function.update_self ..).trans (hleft text (h.identity text htext))

/-- The files of a registered client. -/
def storedFiles (opts : HubRegisterOptions) (certificatePem caCertPem pkcs8Pem : Str)
    (files : Str → Option Str) : Str → Option Str :=
  Function.update (Function.update (Function.update files opts.certPath (some certificatePem))
    opts.caPath (some caCertPem)) opts.keyPath (some pkcs8Pem)

/-- What the client may have written: the three files, and the key last. -/
structure Wrote (opts : HubRegisterOptions) (certificatePem caCertPem : Str)
    (files files' : Str → Option Str) : Prop where
  /-- The other files stay. -/
  frame : ∀ path, path ≠ opts.certPath → path ≠ opts.caPath → path ≠ opts.keyPath →
    files' path = files path
  /-- A new key is beside the new certificates. -/
  ordered : files' opts.keyPath ≠ files opts.keyPath →
    files' opts.certPath = some certificatePem ∧ files' opts.caPath = some caCertPem

variable {files : Str → Option Str} {certificatePem caCertPem : Str} (left : Option Str)

theorem wrote_cert : Wrote opts certificatePem caCertPem files
    (Function.update files opts.certPath left) where
  frame _ hcert _ _ := Function.update_of_ne hcert _ _
  ordered hkey := absurd (Function.update_of_ne keyPath_ne_certPath _ _) hkey

theorem wrote_ca : Wrote opts certificatePem caCertPem files
    (Function.update (Function.update files opts.certPath (some certificatePem))
      opts.caPath left) where
  frame path hcert hca _ := by simp [hcert, hca]
  ordered hkey := absurd (by simp [keyPath_ne_certPath, keyPath_ne_caPath]) hkey

theorem wrote_key : Wrote opts certificatePem caCertPem files
    (Function.update (Function.update (Function.update files opts.certPath (some certificatePem))
      opts.caPath (some caCertPem)) opts.keyPath left) where
  frame path hcert hca hkey := by simp [hcert, hca, hkey]
  ordered _ := by
    simp [keyPath_ne_certPath.symm, keyPath_ne_caPath.symm, certPath_ne_caPath]

end Files

/-- What the command leaves: nothing is written, or the client is enrolled. -/
inductive RegisterOutcome (C : Crypto) (opts : HubRegisterOptions) (identity : HubIdentity)
    (files : Str → Option Str) (r : Except Str (Option HubRegisterSummary)) (s : Registering) : Prop
  | untouched (h : Standing C files s) (hr : ∀ summary, r ≠ .ok (some summary))
  | enrolled {csrPem : Str} {token : TokenSuccessResponse} (hcsr : identity.csrPem = .ok csrPem)
      (hcert : Certified C opts.tenantSlug csrPem token s)
      (hwrote : Wrote opts token.certificatePem C.rootCertPem files s.files)
      (hdone : ∀ summary, r = .ok (some summary) → summary = ⟨opts.tenantSlug, token.deviceId⟩ ∧
        ∃ pkcs8Pem, identity.pkcs8Pem = .ok pkcs8Pem ∧
          s.files = storedFiles opts token.certificatePem C.rootCertPem pkcs8Pem files)

section Command

variable {opts : HubRegisterOptions} {files : Str → Option Str}

/-- The files of the client while it stores its certificate. -/
structure Storing (C : Crypto) (tenantSlug csrPem : Str) (token : TokenSuccessResponse)
    (files : Str → Option Str) (s : Registering) : Prop extends Standing C files s where
  /-- The hub has enrolled it. -/
  certified : Certified C tenantSlug csrPem token s

theorem lasting_storing {tenantSlug csrPem : Str} {token : TokenSuccessResponse} :
    Lasting C (Storing C tenantSlug csrPem token files) :=
  fun _ _ hs h => ⟨(h.standing hs.toStanding).1, h.certified hs.toStanding hs.certified⟩

theorem triple_write_bind {α : Type} {Q : Except Str α → Registering → Prop} {secret : Bool}
    {path contents tenantSlug csrPem : Str} {token : TokenSuccessResponse}
    {f : Unit → Registration α}
    (herror : ∀ e left s, Storing C tenantSlug csrPem token (Function.update files path left) s →
      Q (.error e) s)
    (hf : Script.Triple (RegisterExec C identity)
      (Storing C tenantSlug csrPem token (Function.update files path (some contents))) (f ()) Q) :
    Script.Triple (RegisterExec C identity) (Storing C tenantSlug csrPem token files)
      (call (.writeFile secret path contents) >>= f) Q := by
  refine .bind (R := fun r s => ∃ left,
    Storing C tenantSlug csrPem token (Function.update files path left) s ∧
      (r = .ok () → left = some contents)) (.perform fun s r s' hs hexec => ?_) (fun _ => ?_)
    fun e s ⟨left, hs, _⟩ => herror e left s hs
  · cases hexec with
    | write _ _ _ h =>
      have hs' := lasting_storing _ _ hs h
      exact ⟨_, ⟨⟨hs'.known, by rw [hs'.files_eq]⟩, hs'.certified⟩, fun _ => rfl⟩
    | torn _ _ _ e left h =>
      have hs' := lasting_storing _ _ hs h
      exact ⟨left, ⟨⟨hs'.known, by rw [hs'.files_eq]⟩, hs'.certified⟩, nofun⟩
  · refine hf.mono (fun s ⟨left, hs, hleft⟩ => ?_) fun _ _ h => h
    rwa [hleft rfl] at hs

theorem Storing.outcome {csrPem e : Str} {token : TokenSuccessResponse}
    {files' : Str → Option Str} {s : Registering} (hcsr : identity.csrPem = .ok csrPem)
    (hs : Storing C opts.tenantSlug csrPem token files' s)
    (hwrote : Wrote opts token.certificatePem C.rootCertPem files files') :
    RegisterOutcome C opts identity files (.error e) s :=
  .enrolled hcsr hs.certified (by rwa [hs.files_eq]) nofun

theorem triple_storeToken {csrPem : Str} {token : TokenSuccessResponse}
    (hcsr : identity.csrPem = .ok csrPem) (hca : token.caCertPem = C.rootCertPem)
    (hslug : token.tenantSlug = opts.tenantSlug) :
    Script.Triple (RegisterExec C identity) (Storing C opts.tenantSlug csrPem token files)
      (storeToken opts identity (.ofToken token))
      fun r s => RegisterOutcome C opts identity files (r.map some) s := by
  -- one write after another, and what each leaves if it fails
  refine triple_sent_bind ?_
  refine triple_write_bind (fun e left s hs => hs.outcome hcsr (wrote_cert left)) ?_
  refine triple_write_bind (fun e left s hs => hs.outcome hcsr (wrote_ca left)) ?_
  refine triple_valueOr_bind (fun e s hs => hs.outcome hcsr ?_) fun pkcs8Pem hkey => ?_
  · rw [hca]
    exact wrote_ca _
  refine triple_write_bind (fun e left s hs => hs.outcome hcsr ?_) ?_
  · rw [hca]
    exact wrote_key left
  refine triple_sent_bind (triple_sent_bind (.pure fun s hs => ?_))
  have hfiles : s.files = storedFiles opts token.certificatePem C.rootCertPem pkcs8Pem files := by
    rw [hs.files_eq, hca]
    rfl
  refine .enrolled hcsr hs.certified ?_ fun summary hsummary => ?_
  · rw [hfiles]
    exact wrote_key _
  · cases hsummary
    exact ⟨by rw [hslug], pkcs8Pem, hkey, hfiles⟩

/-- What the client knows while it polls. -/
structure Pending (C : Crypto) (tenantSlug csrPem deviceCode : Str) (files : Str → Option Str)
    (s : Registering) : Prop extends Standing C files s where
  /-- The device code is that of a grant for the request and the tenant. -/
  granted : s.hub.state.db.Granted tenantSlug csrPem deviceCode

theorem lasting_pending {tenantSlug csrPem deviceCode : Str} :
    Lasting C (Pending C tenantSlug csrPem deviceCode files) := by
  intro s s' hs h
  obtain ⟨hs', hgrows⟩ := h.standing hs.toStanding
  exact ⟨hs', hs.granted.mono hgrows⟩

theorem Standing.outcome {s : Registering} (h : Standing C files s) {e : Str} :
    RegisterOutcome C opts identity files (.error e) s := .untouched h nofun

/-- What a poll leaves: the client goes on while its grant is pending. -/
def AfterPoll (C : Crypto) (opts : HubRegisterOptions) (identity : HubIdentity)
    (csrPem deviceCode : Str) (files : Str → Option Str)
    (r : Except Str (Option HubRegisterSummary)) (s : Registering) : Prop :=
  RegisterOutcome C opts identity files r s ∧
    (r = .ok none → Pending C opts.tenantSlug csrPem deviceCode files s)

variable {csrPem deviceCode : Str}

theorem Pending.fails {s : Registering} (h : Pending C opts.tenantSlug csrPem deviceCode files s)
    {e : Str} : AfterPoll C opts identity csrPem deviceCode files (.error e) s :=
  ⟨h.toStanding.outcome, nofun⟩

theorem Pending.storing {s : Registering} (h : Pending C opts.tenantSlug csrPem deviceCode files s)
    {token : TokenSuccessResponse}
    (henrolled : Enrolled C s.events s.hub.state.db deviceCode token) :
    Storing C opts.tenantSlug csrPem token files s ∧ token.caCertPem = C.rootCertPem ∧
      token.tenantSlug = opts.tenantSlug := by
  have hcert := certified_of_granted h.toStanding h.granted henrolled
  obtain ⟨deviceCode, grant, -, tenant, -, device, -, he, -, hslug⟩ := id hcert
  exact ⟨⟨h.toStanding, hcert⟩, he.status_eq.2, he.slug_eq.symm.trans hslug⟩

theorem triple_takeToken {T : RegisterTexts} {body : Body} {token : TokenResponse}
    (hcsr : identity.csrPem = .ok csrPem) (hread : TokenResponse.read T body = .ok token) :
    Script.Triple (RegisterExec C identity)
      (fun s => Pending C opts.tenantSlug csrPem deviceCode files s ∧ ∀ t, body = .token t →
        Enrolled C s.events s.hub.state.db deviceCode t)
      (takeToken opts identity token) (AfterPoll C opts identity csrPem deviceCode files) := by
  cases body with
  | error e =>
    obtain rfl := Except.ok.inj hread
    simp only [takeToken]
    split_ifs
    · exact .pure fun s hs => ⟨.untouched hs.1.toStanding nofun, fun _ => hs.1⟩
    · exact .throw fun s hs => hs.1.fails
  | token t =>
    obtain rfl := Except.ok.inj hread
    change Script.Triple _ _ (if some t.status = some "approved".toList then
      storeToken opts identity (.ofToken t) >>= fun summary => pure (some summary) else throw _) _
    split_ifs
    · intro s ⟨hs, henrolled⟩
      obtain ⟨hstoring, hca, hslug⟩ := hs.storing (henrolled t rfl)
      refine Script.Triple.bind (triple_storeToken hcsr hca hslug) (fun summary => ?_)
        (fun e s hs => ?_) s hstoring
      · exact .pure fun s hs => ⟨hs, nofun⟩
      · exact ⟨hs, nofun⟩
    · exact .throw fun s hs => hs.1.fails
  | deviceCode r =>
    obtain rfl := Except.ok.inj hread
    simp only [takeToken]
    rw [if_neg (by simp)]
    exact .throw fun s hs => hs.1.fails
  | _ => cases hread

theorem triple_pollOnce {T : RegisterTexts} (hcsr : identity.csrPem = .ok csrPem) :
    Script.Triple (RegisterExec C identity) (Pending C opts.tenantSlug csrPem deviceCode files)
      (pollOnce T opts identity deviceCode)
      (AfterPoll C opts identity csrPem deviceCode files) := by
  refine .bind (R := fun r s => Pending C opts.tenantSlug csrPem deviceCode files s ∧
    ∀ response : Rendered, r = .ok response → ∀ t, response.body = .token t →
      Enrolled C s.events s.hub.state.db deviceCode t) (.perform fun s r s' hs hexec => ?_)
    (fun response => ?_) fun e s hs => hs.1.fails
  · refine ⟨lasting_pending s s' hs (.of_exec hexec trivial), ?_⟩
    cases hexec with
    | token _ h =>
      rintro response ⟨⟩ t ht
      exact h.enrolled hs.toStanding ht
    | tokenTurned =>
      rintro response ⟨⟩ t ht
      cases ht
    | tokenLost => nofun
  · refine triple_valueOr_bind (fun e s hs => hs.1.fails) fun token hread => ?_
    exact (triple_takeToken hcsr hread).mono (fun s hs => ⟨hs.1, hs.2 response rfl⟩)
      fun _ _ h => h

/-- The loop: by induction on the number of polls. -/
theorem triple_pollToken {T : RegisterTexts} (hcsr : identity.csrPem = .ok csrPem)
    (interval deadline polls : ℕ) :
    Script.Triple (RegisterExec C identity) (Pending C opts.tenantSlug csrPem deviceCode files)
      (pollToken T opts identity deviceCode interval deadline polls)
      (RegisterOutcome C opts identity files) := by
  induction polls with
  | zero => exact .pure fun s hs => .untouched hs.toStanding nofun
  | succ polls ih =>
    refine triple_callOr_bind lasting_pending trivial (fun e s hs => hs.toStanding.outcome)
      fun now => ?_
    split_ifs
    · exact .throw fun s hs => hs.toStanding.outcome
    refine triple_callOr_bind lasting_pending trivial (fun e s hs => hs.toStanding.outcome)
      fun _ => .bind (triple_pollOnce hcsr) (fun answer => ?_) fun e s hs => hs.1
    cases answer with
    | none => exact ih.mono (fun s hs => hs.2 rfl) fun _ _ h => h
    | some summary => exact .pure fun s hs => hs.1

/-- The device code is that of a grant for the request and the tenant, and the client knows how long
and how often to poll. -/
structure Grants (C : Crypto) (tenantSlug csrPem : Str) (files : Str → Option Str)
    (code : DeviceCodeResponse) (s : Registering) : Prop
    extends Pending C tenantSlug csrPem code.deviceCode files s where
  /-- How long. -/
  expiresIn_eq : code.expiresIn = grantTtl
  /-- How often. -/
  interval_eq : code.interval = pollIntervalSeconds

theorem lasting_grants {code : DeviceCodeResponse} :
    Lasting C (Grants C opts.tenantSlug csrPem files code) :=
  fun s s' hs h => ⟨lasting_pending s s' hs.toPending h, hs.expiresIn_eq, hs.interval_eq⟩

theorem triple_requestCode {T : RegisterTexts} :
    Script.Triple (RegisterExec C identity) (Standing C files) (requestCode T opts csrPem)
      fun r s => Standing C files s ∧ ∀ code, r = .ok code →
        Grants C opts.tenantSlug csrPem files code s := by
  refine .bind (R := fun r s => Standing C files s ∧ ∀ response : Rendered, r = .ok response →
    ∀ code, response.body = .deviceCode code → Grants C opts.tenantSlug csrPem files code s)
    (.perform fun s r s' hs hexec => ?_) (fun response => ?_) fun e s hs => ⟨hs.1, nofun⟩
  · have hs' := lasting_standing files s s' hs (.of_exec hexec trivial)
    refine ⟨hs', ?_⟩
    cases hexec with
    | code _ h =>
      rintro response ⟨⟩ code hcode
      obtain ⟨hgranted, hexpires, hinterval⟩ := h.granted hs hcode
      exact ⟨⟨hs', hgranted⟩, hexpires, hinterval⟩
    | codeTurned =>
      rintro response ⟨⟩ code hcode
      cases hcode
    | codeLost => nofun
  · split_ifs
    · exact .throw fun s hs => ⟨hs.1, nofun⟩
    · refine .value fun s hs => ⟨hs.1, fun code hcode => hs.2 response rfl code ?_⟩
      cases hbody : response.body with
      | deviceCode r =>
        rw [hbody] at hcode
        cases hcode
        rfl
      | _ =>
        rw [hbody] at hcode
        cases hcode

theorem triple_awaitApproval {T : RegisterTexts} {code : DeviceCodeResponse}
    (hcsr : identity.csrPem = .ok csrPem) (polls : ℕ) :
    Script.Triple (RegisterExec C identity) (Grants C opts.tenantSlug csrPem files code)
      (awaitApproval T opts identity code polls) (RegisterOutcome C opts identity files) := by
  have hfail : ∀ e s, Grants C opts.tenantSlug csrPem files code s →
      RegisterOutcome C opts identity files (.error e) s := fun e s hs => hs.toStanding.outcome
  refine triple_callOr_bind lasting_grants trivial hfail fun _ => ?_
  refine triple_callOr_bind lasting_grants trivial hfail fun _ => ?_
  refine triple_callOr_bind lasting_grants trivial hfail fun now => ?_
  exact (triple_pollToken hcsr _ _ _).mono (fun s hs => hs.toPending) fun _ _ h => h

theorem triple_deviceId : Script.Triple (RegisterExec C identity) (Standing C files)
    (call (.deviceId opts.deviceIdPath)) fun _ s => ∃ files',
      Prepared opts files files' ∧ Standing C files' s := by
  refine .perform fun s r s' hs hexec => ?_
  cases hexec with
  | deviceId h => exact ⟨files, .refl files, (h.standing hs).1⟩
  | newDeviceId _ id h hblank =>
    obtain ⟨hs', -⟩ := h.standing hs
    rw [hs'.files_eq] at hblank
    exact ⟨_, prepared_deviceId hblank _, hs'.known, by rw [hs'.files_eq]⟩
  | noDeviceId _ e left h hblank =>
    obtain ⟨hs', -⟩ := h.standing hs
    rw [hs'.files_eq] at hblank
    exact ⟨_, prepared_deviceId hblank left, hs'.known, by rw [hs'.files_eq]⟩

theorem triple_ensureIdentity (deviceId : Str) : Script.Triple (RegisterExec C identity)
    (fun s => ∃ files', Prepared opts files files' ∧ Standing C files' s)
    (call (.ensureIdentity deviceId opts.identityPath)) fun r s =>
      (∃ files', Prepared opts files files' ∧ Standing C files' s) ∧ ∀ i, r = .ok i → i = identity := by
  refine .perform fun s r s' ⟨files', hprepared, hs⟩ hexec => ?_
  cases hexec with
  | ensureIdentity _ h hleft =>
    obtain ⟨hs', -⟩ := h.standing hs
    rw [hs'.files_eq] at hleft
    refine ⟨⟨_, hprepared.update hleft, hs'.known, by rw [hs'.files_eq]⟩, fun i hi => ?_⟩
    exact (Except.ok.inj hi).symm
  | noIdentity _ e h hleft =>
    obtain ⟨hs', -⟩ := h.standing hs
    rw [hs'.files_eq] at hleft
    exact ⟨⟨_, hprepared.update hleft, hs'.known, by rw [hs'.files_eq]⟩, nofun⟩

/-- The command, from what it does with the files that it finds once it has its identity. -/
theorem triple_register {T : RegisterTexts}
    {Q : Except Str (Option HubRegisterSummary) → Registering → Prop}
    (hfail : ∀ files' e s, Prepared opts files files' → Standing C files' s → Q (.error e) s)
    {polls : ℕ} (hawait : ∀ files' csrPem code, Prepared opts files files' →
      identity.csrPem = .ok csrPem → Script.Triple (RegisterExec C identity)
        (Grants C opts.tenantSlug csrPem files' code) (awaitApproval T opts identity code polls) Q) :
    Script.Triple (RegisterExec C identity) (Standing C files) (runHubRegister T opts polls) Q := by
  refine .bind triple_deviceId (fun deviceId => ?_) fun e s ⟨files', hprepared, hs⟩ =>
    hfail files' e s hprepared hs
  refine .bind (triple_ensureIdentity deviceId) (fun i => .of_imp fun hi => ?_)
    fun e s ⟨⟨files', hprepared, hs⟩, _⟩ => hfail files' e s hprepared hs
  obtain rfl := hi i rfl
  rintro s ⟨files', hprepared, hs⟩
  have hlast := lasting_standing (C := C) files'
  have hfail' := fun e s => hfail files' e s hprepared
  refine Script.Triple.mono (P := Standing C files') ?_ (fun _ h => h) (fun _ _ h => h) s hs
  refine triple_valueOr_bind hfail' fun csrPem hcsr => ?_
  refine triple_callOr_bind hlast trivial hfail' fun pem => ?_
  refine triple_valueOr_bind hfail' fun _ _ => ?_
  refine .bind triple_requestCode (fun code => ?_) fun e s hs => hfail' e s hs.1
  exact (hawait files' csrPem code hprepared hcsr).mono (fun s hs => hs.2 code rfl) fun _ _ h => h

/-- What the command leaves, of the files that it found once it had its identity. -/
theorem triple_runHubRegister {T : RegisterTexts} (polls : ℕ) :
    Script.Triple (RegisterExec C identity) (Standing C files) (runHubRegister T opts polls)
      fun r s => ∃ files', Prepared opts files files' ∧ RegisterOutcome C opts identity files' r s :=
  triple_register (fun files' _ _ hprepared hs => ⟨files', hprepared, hs.outcome⟩)
    fun files' _ _ hprepared hcsr => (triple_awaitApproval hcsr polls).mono (fun _ h => h)
      fun _ _ h => ⟨files', hprepared, h⟩

end Command

/-! ### The end of the loop -/

section Loop

variable {T : RegisterTexts} {opts : HubRegisterOptions}

theorem fromSecs_mul_succ (interval n : ℕ) :
    fromSecs (interval * (n + 1)) = fromSecs interval + fromSecs (interval * n) := by
  unfold fromSecs
  rw [Nat.mul_add_one interval n, Nat.add_mul, Nat.add_comm]

theorem triple_clock {α : Type} (m : Registration α) (t : ℕ) :
    Script.Triple (RegisterExec C identity) (fun s => t ≤ s.clock) m fun _ s => t ≤ s.clock :=
  .of_calls (fun _ _ _ hs hexec => hs.trans hexec.clock_le) m

theorem triple_now_bind {α : Type} {t : ℕ} {f : ℕ → Registration α}
    {Q : Except Str α → Registering → Prop} (hfail : ∀ e s, Q (.error e) s)
    (hf : ∀ now, t ≤ now →
      Script.Triple (RegisterExec C identity) (fun s => now ≤ s.clock) (f now) Q) :
    Script.Triple (RegisterExec C identity) (fun s => t ≤ s.clock) (call .now >>= f) Q := by
  refine .bind (R := fun r s => ∀ now, r = .ok now → t ≤ now ∧ now = s.clock)
    (.perform fun s r s' hs hexec => ?_) (fun now => ?_) fun e s _ => hfail e s
  · cases hexec with
    | now h =>
      rintro now ⟨⟩
      exact ⟨hs.trans h.clock, rfl⟩
  · intro s hs
    obtain ⟨ht, hnow⟩ := hs now rfl
    exact hf now ht s hnow.le

/-- The loop ends after as many polls as there are pauses before the deadline. -/
theorem triple_pollToken_ne {deviceCode : Str} {interval deadline : ℕ} (n : ℕ) {t : ℕ}
    (ht : deadline ≤ t + fromSecs (interval * n)) :
    Script.Triple (RegisterExec C identity) (fun s => t ≤ s.clock)
      (pollToken T opts identity deviceCode interval deadline (n + 1)) fun r _ => r ≠ .ok none := by
  induction n generalizing t with
  | zero =>
    refine triple_now_bind (fun _ _ => nofun) fun now hnow => ?_
    have hdead : deadline ≤ t := by simpa [fromSecs] using ht
    rw [if_pos (hdead.trans hnow)]
    exact .throw fun _ _ => nofun
  | succ n ih =>
    rw [fromSecs_mul_succ] at ht
    refine triple_now_bind (fun _ _ => nofun) fun now hnow => ?_
    split_ifs
    · exact .throw fun _ _ => nofun
    refine .bind (R := fun _ s => now + fromSecs interval ≤ s.clock)
      (.perform fun s r s' hs hexec => ?_) (fun _ => ?_) fun _ _ _ => nofun
    · cases hexec with
      | sleep h hclock => exact (Nat.add_le_add_right hs _).trans hclock
    refine .bind (triple_clock _ _) (fun answer => ?_) fun _ _ _ => nofun
    cases answer with
    | none => exact ih (by omega)
    | some summary => exact .pure fun _ _ => nofun

/-- The client shows the user code and polls until the time of the grant is up. -/
theorem triple_awaitApproval_ne {code : DeviceCodeResponse} {n : ℕ}
    (htime : code.expiresIn ≤ code.interval * n) :
    Script.Triple (RegisterExec C identity) (fun _ => True)
      (awaitApproval T opts identity code (n + 1)) fun r _ => r ≠ .ok none := by
  have hlast : Lasting C fun _ => True := fun _ _ _ _ => trivial
  have hsecs : fromSecs code.expiresIn ≤ fromSecs (code.interval * n) := Nat.mul_le_mul_right _ htime
  refine triple_callOr_bind hlast trivial (fun _ _ _ => nofun) fun _ => ?_
  refine triple_callOr_bind hlast trivial (fun _ _ _ => nofun) fun _ => ?_
  refine Script.Triple.mono (P := fun s => 0 ≤ s.clock) (triple_now_bind (fun _ _ => nofun)
    fun now _ => triple_pollToken_ne n ?_) (fun _ _ => Nat.zero_le _) fun _ _ h => h
  exact Nat.add_le_add_left hsecs now

end Loop

/-! ### A client from its first request on -/

/-- A client and a hub where every statement succeeds: a process of its own handles a request, which
takes some seconds. -/
def Registering.handle (serial : Str) (i : ℕ) (p : Handler Rendered) (secs : ℕ) (s : Registering) :
    Registering :=
  let (es, response, w) := p.eval (Hub.exampleAnswer serial) s.hub.state
  { s with
    hub := ⟨Function.update s.hub.threads i (some (.pure response)), w⟩
    events := s.events ++ [.handler (.start i)] ++ es.map fun e => .handler (.call i e)
    clock := s.clock + fromSecs secs }

theorem handles_handle {s : Registering} {serial : Str} {i secs : ℕ} {p : Handler Rendered}
    {response : Rendered} (hfree : s.hub.threads i = none) (hstart : Hub.Starts exampleCrypto p)
    (hresponse : (p.eval (Hub.exampleAnswer serial) s.hub.state).2.1 = response) :
    Handles exampleCrypto p response s (s.handle serial i p secs) := by
  subst hresponse
  have run₁ : HubRun exampleCrypto s.hub [.handler (.start i)] _ :=
    .single (.handler (.start _ hfree hstart))
  have run₂ : Pool.Run Program.Next (Hub.Exec exampleCrypto) (Hub.Starts exampleCrypto)
      ⟨Function.update s.hub.threads i (some p), s.hub.state⟩ _ _ :=
    .of_program (i := i) (Program.returns_eval (exec_exampleAnswer serial) p s.hub.state)
      (Function.update_self i _ _)
  have run₃ : HubRun exampleCrypto _ _ _ := run₂.map HubEvent.handler fun _ _ _ h => .handler h
  rw [List.map_map, Function.update_idem] at run₃
  exact ⟨⟨_, _, _, i, run₁, Function.update_self i _ _, run₃, Function.update_self i _ _, rfl⟩,
    Nat.le_add_right _ _, rfl⟩

theorem Meanwhile.refl (C : Crypto) (s : Registering) : Meanwhile C s s :=
  ⟨⟨[], .nil _, (List.append_nil _).symm⟩, le_rfl, rfl⟩

/-- The texts do not matter. -/
def exampleTexts : RegisterTexts := ⟨fun _ => .ok (), fun _ => [], fun _ => [], fun _ => []⟩

/-- A store. -/
def exampleOptions : HubRegisterOptions :=
  ⟨"store".toList, "https://hub".toList, "acme".toList, "ca.pem".toList⟩

/-- Its identity. -/
def exampleIdentity : HubIdentity := ⟨.ok "key".toList, .ok "secret".toList⟩

/-- A client without a file, and a hub without a tenant. -/
def exampleRegistering : Registering := ⟨⟨fun _ => none, {}⟩, [], 0, fun _ => none⟩

/-- The files of the client once it has its name and its identity. -/
def exampleNamed : Str → Option Str :=
  Function.update (Function.update (fun _ => none) exampleOptions.deviceIdPath (some "01\n".toList))
    exampleOptions.identityPath (some "secret".toList)

/-- The operator has created a tenant. -/
def exampleInvited : Registering := ⟨⟨fun _ => none, Hub.exampleWorld⟩, [.elsewhere], 0, exampleNamed⟩

/-- The client asks for a grant. -/
def exampleAsked : Registering :=
  exampleInvited.handle [] 0
    (handleDeviceCode exampleCrypto (.ok ("acme".toList, "key".toList)) "dc".toList "uc".toList) 0

/-- A human approves it while the client sleeps. -/
def exampleSlept : Registering :=
  exampleAsked.handle "01".toList 1 (handleVerifySubmit exampleCrypto (some "uc".toList)) 5

/-- The client polls. -/
def exampleGot : Registering :=
  exampleSlept.handle [] 2 (handleDeviceToken exampleCrypto (.ok "dc".toList)) 0

/-- The client stores its certificate. -/
def exampleStored : Registering :=
  { exampleGot with
    files := storedFiles exampleOptions "01".toList "root".toList "secret".toList exampleNamed }

theorem ends_exampleRegistering (polls : ℕ) :
    Program.Ends (RegisterExec exampleCrypto exampleIdentity)
      (runHubRegister exampleTexts exampleOptions (polls + 1)).run exampleRegistering
      (.ok (some ⟨"acme".toList, 1⟩)) exampleStored := by
  have refl := Meanwhile.refl exampleCrypto
  have htenant : Meanwhile exampleCrypto exampleRegistering
      { exampleInvited with files := fun _ => none } :=
    ⟨⟨_, .single (.elsewhere _ elsewhere_exampleWorld), rfl⟩, le_rfl, rfl⟩
  have hask : Handles exampleCrypto (handleDeviceCode exampleCrypto
      (.ok ("acme".toList, "key".toList)) "dc".toList "uc".toList)
      ⟨200, .deviceCode ⟨"dc".toList, "uc".toList, "/verify".toList, 600, 5⟩⟩
      exampleInvited exampleAsked := handles_handle rfl (.inl ⟨_, _, _, rfl⟩) (by decide)
  have happrove : Handles exampleCrypto (handleVerifySubmit exampleCrypto (some "uc".toList))
      _ exampleAsked exampleSlept := handles_handle rfl (.inr (.inr ⟨_, rfl⟩)) rfl
  have hpoll : Handles exampleCrypto (handleDeviceToken exampleCrypto (.ok "dc".toList))
      ⟨200, .token exampleCertificate⟩ exampleSlept exampleGot :=
    handles_handle rfl (.inr (.inl ⟨_, rfl⟩)) (by decide)
  -- the operator approves during the first pause, so that one poll is enough
  have hloop : ∀ deadline, exampleAsked.clock < deadline →
      Program.Ends (RegisterExec exampleCrypto exampleIdentity) (pollToken exampleTexts exampleOptions
        exampleIdentity "dc".toList 5 deadline (polls + 1)).run exampleAsked
        (.ok (some ⟨"acme".toList, 1⟩)) exampleStored := by
    intro deadline hdeadline
    refine Program.ends_call.2 ⟨_, _, .now (refl _), ?_⟩
    change Program.Ends _ (ExceptT.run (if deadline ≤ exampleAsked.clock then _ else _)) _ _ _
    rw [if_neg (Nat.not_le.2 hdeadline)]
    refine Program.ends_call.2 ⟨_, _, .sleep happrove.meanwhile le_rfl, ?_⟩
    refine Program.ends_call.2 ⟨_, _, .token _ hpoll, ?_⟩
    refine Program.ends_call.2 ⟨_, _, .write _ _ _ (refl _), ?_⟩
    refine Program.ends_call.2 ⟨_, _, .write _ _ _ (refl _), ?_⟩
    refine Program.ends_call.2 ⟨_, _, .write _ _ _ (refl _), ?_⟩
    exact Program.ends_pure.2 ⟨rfl, rfl⟩
  -- neither the name of the device nor its identity is there yet
  refine Program.ends_call.2 ⟨_, _, .newDeviceId _ "01".toList htenant nofun, ?_⟩
  have hnone : exampleOptions.identityPath ≠ exampleOptions.deviceIdPath :=
    deviceIdPath_ne_identityPath.symm
  refine Program.ends_call.2 ⟨_, exampleInvited, .ensureIdentity _ (refl _) fun text htext => ?_, ?_⟩
  · have hfree : Function.update (fun _ => none) exampleOptions.deviceIdPath
        (some ("01".toList ++ ['\n'])) exampleOptions.identityPath = some text := htext
    rw [Function.update_of_ne hnone] at hfree
    cases hfree
  refine Program.ends_call.2 ⟨.ok [], _, .readFile _ _ (refl _), ?_⟩
  refine Program.ends_call.2 ⟨_, _, .code _ hask, ?_⟩
  refine Program.ends_call.2 ⟨_, _, .report _ (refl _), ?_⟩
  refine Program.ends_call.2 ⟨_, _, .report _ (refl _), ?_⟩
  refine Program.ends_call.2 ⟨_, _, .now (refl _), ?_⟩
  exact hloop (exampleAsked.clock + fromSecs 600) (by decide)

/-! ### What the command achieves -/

variable {T : RegisterTexts} {opts : HubRegisterOptions} {polls : ℕ} {s s' : Registering}

/-- **A client that succeeds has a certificate that the hub signed for its own key and its own tenant**,
and the key is beside it. -/
theorem register_certifies (hknown : Known C s.events s.hub) {summary : HubRegisterSummary}
    (hends : Program.Ends (RegisterExec C identity) (runHubRegister T opts polls).run s
      (.ok (some summary)) s') :
    ∃ csrPem pkcs8Pem token files, identity.csrPem = .ok csrPem ∧ identity.pkcs8Pem = .ok pkcs8Pem ∧
      Certified C opts.tenantSlug csrPem token s' ∧
      summary = ⟨opts.tenantSlug, token.deviceId⟩ ∧ Prepared opts s.files files ∧
      s'.files = storedFiles opts token.certificatePem C.rootCertPem pkcs8Pem files := by
  obtain ⟨files, hprepared, houtcome⟩ := triple_runHubRegister polls s ⟨hknown, rfl⟩ _ _ hends
  cases houtcome with
  | untouched _ hr => exact absurd rfl (hr summary)
  | enrolled hcsr hcert _ hdone =>
    obtain ⟨hsummary, pkcs8Pem, hkey, hfiles⟩ := hdone summary rfl
    exact ⟨_, pkcs8Pem, _, files, hcsr, hkey, hcert, hsummary, hprepared, hfiles⟩

/-- The client that asked, slept and polled once. -/
theorem register_certifies_example : ∃ csrPem pkcs8Pem token files,
    exampleIdentity.csrPem = .ok csrPem ∧ exampleIdentity.pkcs8Pem = .ok pkcs8Pem ∧
      Certified exampleCrypto "acme".toList csrPem token exampleStored ∧
      (⟨"acme".toList, 1⟩ : HubRegisterSummary) = ⟨"acme".toList, token.deviceId⟩ ∧
      Prepared exampleOptions exampleRegistering.files files ∧
      exampleStored.files = storedFiles exampleOptions token.certificatePem exampleCrypto.rootCertPem
        pkcs8Pem files :=
  register_certifies (known_init rfl) (ends_exampleRegistering 0)

/-- **The client writes nothing but its name and its identity unless the hub has enrolled it**, however
it ends: then only the three files can change, and a new key is beside the new certificates. -/
theorem writes_certified (hknown : Known C s.events s.hub)
    {r : Except Str (Option HubRegisterSummary)}
    (hends : Program.Ends (RegisterExec C identity) (runHubRegister T opts polls).run s r s') :
    ∃ files, Prepared opts s.files files ∧ (s'.files ≠ files →
      ∃ csrPem token, identity.csrPem = .ok csrPem ∧ Certified C opts.tenantSlug csrPem token s' ∧
        Wrote opts token.certificatePem C.rootCertPem files s'.files) := by
  obtain ⟨files, hprepared, houtcome⟩ := triple_runHubRegister polls s ⟨hknown, rfl⟩ _ _ hends
  refine ⟨files, hprepared, fun hchanged => ?_⟩
  cases houtcome with
  | untouched h => exact absurd h.files_eq hchanged
  | enrolled hcsr hcert hwrote => exact ⟨_, _, hcsr, hcert, hwrote⟩

/-- The client has written its certificate. -/
theorem writes_certified_example : ∃ files,
    Prepared exampleOptions exampleRegistering.files files ∧ (exampleStored.files ≠ files →
      ∃ csrPem token, exampleIdentity.csrPem = .ok csrPem ∧
        Certified exampleCrypto "acme".toList csrPem token exampleStored ∧
        Wrote exampleOptions token.certificatePem exampleCrypto.rootCertPem files
          exampleStored.files) :=
  writes_certified (known_init rfl) (ends_exampleRegistering 0)

/-- **The client stops after 120 polls**: the grant and its polls are timed by what the hub said. -/
theorem register_ends (hknown : Known C s.events s.hub) (hpolls : 120 < polls)
    {r : Except Str (Option HubRegisterSummary)}
    (hends : Program.Ends (RegisterExec C identity) (runHubRegister T opts polls).run s r s') :
    r ≠ .ok none := by
  obtain ⟨n, rfl⟩ : ∃ n, polls = n + 1 := ⟨polls - 1, by omega⟩
  refine triple_register (Q := fun r _ => r ≠ .ok none) (fun _ _ _ _ _ => nofun)
    (fun files csrPem code _ _ s hs => ?_) s ⟨hknown, rfl⟩ r s' hends
  refine triple_awaitApproval_ne ?_ s trivial
  rw [hs.expiresIn_eq, hs.interval_eq]
  unfold grantTtl pollIntervalSeconds
  omega

/-- Enough polls for any grant. -/
theorem register_ends_example :
    (.ok (some ⟨"acme".toList, 1⟩) : Except Str (Option HubRegisterSummary)) ≠ .ok none :=
  register_ends (known_init rfl) (by decide : 120 < 121) (ends_exampleRegistering 120)

end Cli

end Wkp
