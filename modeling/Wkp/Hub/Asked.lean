import Wkp.Hub.Enrolled

/-!
# What the hub promises a client

The requests of a client, each handled by a process of the hub, while anything else goes on.

* `Hub.Known` : a hub that was empty once, with its history; `Hub.Known.run`.
* `Hub.Known.granted` : **a device code is that of a grant for the request and the tenant.**
* `Hub.Known.enrolled` : a certificate comes from the enrollment of its device code.
-/

namespace Wkp

open Rust

namespace Hub

variable {C : Crypto}

/-- A hub of which is known what a run from empty tables keeps. -/
def Known (C : Crypto) (ls : List HubEvent) (pool : Pool (Handler Rendered) World) : Prop :=
  ∃ P : Pool Stage World, pool = P.map (Stage.program C) ∧ Enrolling C ls P

theorem known_init {w₀ : World} (hdb : w₀.db = {}) : Known C [] ⟨fun _ => none, w₀⟩ :=
  ⟨⟨fun _ => none, w₀⟩, rfl, .init hdb⟩

variable {ls₀ ls : List HubEvent} {pool pool' : Pool (Handler Rendered) World}

theorem Known.run (h : Known C ls₀ pool) (run : HubRun C pool ls pool') :
    Known C (ls₀ ++ ls) pool' ∧ pool.state.db.Grows pool'.state.db := by
  obtain ⟨P, rfl, hP⟩ := h
  obtain ⟨P', rfl, run'⟩ := run.exists_stageRun
  obtain ⟨hP', hgrows⟩ := hP.run run'
  exact ⟨⟨P', rfl, hP'⟩, hgrows⟩

theorem Known.wellFormed (h : Known C ls pool) : pool.state.db.WellFormed := by
  obtain ⟨P, rfl, hP⟩ := h
  exact hP.approving.wellFormed

theorem Known.enrolled (h : Known C ls₀ pool) {i : ℕ} {deviceCode : Str} {status : ℕ}
    {token : TokenSuccessResponse}
    (hpoll : pool.threads i = some (handleDeviceToken C (.ok deviceCode)))
    (run : HubRun C pool ls pool')
    (htoken : pool'.threads i = some (.pure ⟨status, .token token⟩)) :
    Enrolled C (ls₀ ++ ls) pool'.state.db deviceCode token := by
  obtain ⟨P, rfl, hP⟩ := h
  obtain ⟨P', rfl, run'⟩ := run.exists_stageRun
  exact Polling.enrolled hP hpoll run' htoken

/-! ### Requests for grants -/

/-- The tenant with the number has the name. -/
def Db.Named (db : Db) (tenantId : ℕ) (slug : Str) : Prop :=
  ∃ tenant ∈ db.tenants, tenant.id = tenantId ∧ tenant.slug = slug

/-- The device code is that of a grant for the request and the tenant. -/
def Db.Granted (db : Db) (slug csrPem deviceCode : Str) : Prop :=
  ∃ grant ∈ db.grants, grant.deviceCode = deviceCode ∧ grant.csrPem = csrPem ∧
    db.Named grant.tenantId slug

theorem Db.Named.mono {db db' : Db} (h : db.Grows db') {tenantId : ℕ} {slug : Str}
    (hn : db.Named tenantId slug) : db'.Named tenantId slug := by
  obtain ⟨t, ht, hid, hslug⟩ := hn
  obtain ⟨t', ht', hid', hslug'⟩ := h.tenants t ht
  exact ⟨t', ht', hid'.trans hid, hslug'.trans hslug⟩

theorem Db.Granted.mono {db db' : Db} (h : db.Grows db') {slug csrPem deviceCode : Str}
    (hg : db.Granted slug csrPem deviceCode) : db'.Granted slug csrPem deviceCode := by
  obtain ⟨grant, hgrant, hcode, hcsr, hnamed⟩ := hg
  obtain ⟨row, hrow, hafter⟩ := h.grants grant hgrant
  refine ⟨row, hrow, hafter.deviceCode_eq.trans hcode, hafter.csrPem_eq.trans hcsr, ?_⟩
  rw [hafter.tenantId_eq]
  exact hnamed.mono h

/-- Where a process is that handles a request for a grant. -/
inductive Asks (db : Db) (slug csrPem deviceCode userCode : Str) : Handler Rendered → Prop
  | connect : Asks db slug csrPem deviceCode userCode (grantForCsr slug csrPem deviceCode userCode)
  | tenant : Asks db slug csrPem deviceCode userCode (grantForTenant slug csrPem deviceCode userCode)
  | now {tenantId : ℕ} (h : db.Named tenantId slug) :
      Asks db slug csrPem deviceCode userCode (createGrant tenantId csrPem deviceCode userCode)
  | insert {tenantId expiresAt : ℕ} (h : db.Named tenantId slug) :
      Asks db slug csrPem deviceCode userCode
        (insertGrant tenantId csrPem deviceCode userCode expiresAt)
  | done {response : Rendered} (h : ∀ r, response.body = .deviceCode r →
      db.Granted slug csrPem r.deviceCode ∧ r.expiresIn = grantTtl ∧
        r.interval = pollIntervalSeconds) :
      Asks db slug csrPem deviceCode userCode (.pure response)

section Asks

variable {db db' : Db} {slug csrPem deviceCode userCode : Str} {p p' : Handler Rendered}

theorem asks_handleDeviceCode (C : Crypto) (db : Db) (slug csrPem deviceCode userCode : Str) :
    Asks db slug csrPem deviceCode userCode
      (handleDeviceCode C (.ok (slug, csrPem)) deviceCode userCode) := by
  unfold handleDeviceCode
  dsimp only
  split_ifs
  · exact .connect
  · exact .done fun r hr => by cases hr

theorem Asks.mono (h : db.Grows db') (hp : Asks db slug csrPem deviceCode userCode p) :
    Asks db' slug csrPem deviceCode userCode p := by
  cases hp with
  | connect => exact .connect
  | tenant => exact .tenant
  | now hnamed => exact .now (hnamed.mono h)
  | insert hnamed => exact .insert (hnamed.mono h)
  | done hdone => exact .done fun r hr => ⟨(hdone r hr).1.mono h, (hdone r hr).2⟩

theorem asks_error {status : ℕ} {e : Str} :
    Asks db slug csrPem deviceCode userCode (.pure ⟨status, .error e⟩) :=
  .done fun r hr => by cases hr

theorem Asks.next {w w' : World} {e : Program.Exchange Reply}
    (hp : Asks w.db slug csrPem deviceCode userCode p) (hnext : Program.Next p e p')
    (hexec : Exec C w e w') : Asks w'.db slug csrPem deviceCode userCode p' := by
  cases hp with
  | connect =>
    obtain ⟨r, rfl, rfl⟩ := Program.next_call.1 hnext
    cases r with
    | error e => exact asks_error
    | ok u => exact .tenant
  | tenant =>
    obtain ⟨r, rfl, rfl⟩ := Program.next_call.1 hnext
    rcases r with e | _ | tenant
    · exact asks_error
    · exact asks_error
    · obtain ⟨hok, rfl⟩ := hexec.sql_ok
      have hfound : w.db.findTenantBySlug slug = some tenant := Except.ok.inj hok
      exact .now ⟨tenant, List.mem_of_find?_eq_some hfound, rfl,
        by simpa using List.find?_some hfound⟩
  | now hnamed =>
    obtain ⟨now, rfl, rfl⟩ := Program.next_call.1 hnext
    rw [hexec.db_eq (by intro q h; cases h)]
    exact .insert hnamed
  | insert hnamed =>
    obtain ⟨r, rfl, rfl⟩ := Program.next_call.1 hnext
    cases r with
    | error e => exact asks_error
    | ok grant =>
      obtain ⟨hok, rfl⟩ := hexec.sql_ok
      dsimp only [Statement.run] at hok ⊢
      obtain ⟨hgrant, hdb⟩ := Db.createDeviceGrant_ok hok
      rw [hdb]
      refine .done fun r hr => ?_
      obtain rfl := Body.deviceCode.inj hr
      refine ⟨⟨grant, List.mem_append_right _ (List.mem_singleton_self _), rfl, ?_, ?_⟩, rfl, rfl⟩
      · rw [hgrant]
      · rw [hgrant]
        exact hnamed
  | done => exact absurd hnext Program.not_next_pure

/-- A step of the hub leaves a process that handles a request for a grant where it is, or it is the next
call of the process. -/
theorem Known.asks_step {l : HubEvent} (h : Known C ls pool)
    (hstep : HubStep C Program.Next (Starts C) pool l pool') {i : ℕ} (hi : pool.threads i = some p)
    (hp : Asks pool.state.db slug csrPem deviceCode userCode p) :
    ∃ p', pool'.threads i = some p' ∧
      Asks pool'.state.db slug csrPem deviceCode userCode p' := by
  have hgrows := (h.run (.single hstep)).2
  cases hstep with
  | elsewhere => exact ⟨p, hi, hp.mono hgrows⟩
  | handler hstep =>
    cases hstep with
    | @start threads w j q hfree hstart =>
      have hne : i ≠ j := by
        rintro rfl
        cases hfree.symm.trans hi
      exact ⟨p, (Function.update_of_ne hne _ _).trans hi, hp.mono hgrows⟩
    | @call threads w w' j q q' e hj hnext hexec =>
      by_cases hij : i = j
      · subst hij
        obtain rfl : p = q := Option.some.inj (hi.symm.trans hj)
        exact ⟨q', Function.update_self i _ _, hp.next hnext hexec⟩
      · exact ⟨p, (Function.update_of_ne hij _ _).trans hi, hp.mono hgrows⟩

/-- **A device code is that of a grant for the request and the tenant**, and the client is told how long
it can poll and how often. -/
theorem Known.granted (h : Known C ls₀ pool) {i status : ℕ} {r : DeviceCodeResponse}
    (hask : pool.threads i = some (handleDeviceCode C (.ok (slug, csrPem)) deviceCode userCode))
    (run : HubRun C pool ls pool')
    (hdone : pool'.threads i = some (.pure ⟨status, .deviceCode r⟩)) :
    pool'.state.db.Granted slug csrPem r.deviceCode ∧ r.expiresIn = grantTtl ∧
      r.interval = pollIntervalSeconds := by
  have hinv : Known C (ls₀ ++ ls) pool' ∧ ∃ p, pool'.threads i = some p ∧
      Asks pool'.state.db slug csrPem deviceCode userCode p := by
    refine Trace.Run.history (I := fun ls pool => Known C (ls₀ ++ ls) pool ∧
      ∃ p, pool.threads i = some p ∧ Asks pool.state.db slug csrPem deviceCode userCode p) ?_ ?_ run
    · rw [List.append_nil]
      exact ⟨h, _, hask, asks_handleDeviceCode C _ slug csrPem deviceCode userCode⟩
    · rintro ls pool l pool' - ⟨hknown, p, hi, hp⟩ hstep
      rw [← List.append_assoc]
      exact ⟨(hknown.run (.single hstep)).1, hknown.asks_step hstep hi hp⟩
  obtain ⟨-, p, hi, hp⟩ := hinv
  obtain rfl := Option.some.inj (hi.symm.trans hdone)
  cases hp with
  | done hdone => exact hdone r rfl

end Asks

end Hub

end Wkp
