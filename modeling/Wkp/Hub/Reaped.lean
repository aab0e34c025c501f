import Wkp.Hub.Stages
import Wkp.Hub.TenantPod

/-!
# Which pods a sweep stops

Sweeps of the reaper, call by call, with any other programs of the hub in between: requests that mark
their tenants active, and updates of `always_warm`.

* `Hub.Proc` : what runs, a sweep or something else.
* `Hub.Tenant.Active` : what a sweep must not stop.
* `Hub.pending` : the tenants that a sweep has found idle and not stopped yet.
* `Hub.Calm` : no tenant is marked active or kept warm while it is pending; `Hub.CalmStep`.
* `Hub.Reaping.step` : **pending tenants stay idle.**
* `Hub.reaps_idle` : **after calm steps, a sweep stops no active tenant.**
-/

namespace Wkp

open Rust

namespace Hub

/-! ### What runs -/

/-- A sweep, with its idle time, or any other program. -/
inductive Proc
  | sweep (idleFor : ℕ) (p : Handler (Except Str (List Str)))
  | other (p : Handler Unit)

/-- A process makes its next call. -/
inductive Proc.Next : Proc → Program.Exchange Reply → Proc → Prop
  | sweep {idleFor : ℕ} {p p' : Handler (Except Str (List Str))} {e : Program.Exchange Reply}
      (h : Program.Next p e p') : Next (.sweep idleFor p) e (.sweep idleFor p')
  | other {p p' : Handler Unit} {e : Program.Exchange Reply} (h : Program.Next p e p') :
      Next (.other p) e (.other p')

/-- A process starts: a sweep with its whole program. -/
inductive Proc.Starts : Proc → Prop
  | sweep (idleFor : ℕ) : Starts (.sweep idleFor (reapIdle podmanOrchestrator idleFor))
  | other (p : Handler Unit) : Starts (.other p)

/-- The tenant is always warm, or was last active less than the idle time ago. -/
def Tenant.Active (t : Tenant) (idleFor clock : ℕ) : Prop :=
  t.alwaysWarm = true ∨ clock < t.lastActiveAt + idleFor

/-! ### Pending tenants -/

/-- The tenants that a process has found idle and not stopped yet, after a call. -/
def pendingNext (g : List Tenant) : Program.Exchange Reply → List Tenant
  | ⟨.sql (.findIdleRunningTenants _), .ok tenants⟩ => tenants
  | ⟨.podman (.rm _), _⟩ => g.tail
  | _ => g

/-- The tenants that a process has found idle and not stopped yet. -/
def pending (ls : List (Pool.Label (Program.Exchange Reply))) (i : ℕ) : List Tenant :=
  ls.foldl (fun g l => match l with
    | .call j e => if j = i then pendingNext g e else g
    | .start _ => g) []

theorem pending_call (ls : List (Pool.Label (Program.Exchange Reply))) (i j : ℕ)
    (e : Program.Exchange Reply) : pending (ls ++ [.call j e]) i =
      if j = i then pendingNext (pending ls i) e else pending ls i := by
  unfold pending
  rw [List.foldl_append]
  rfl

theorem pending_start (ls : List (Pool.Label (Program.Exchange Reply))) (i j : ℕ) :
    pending (ls ++ [.start j]) i = pending ls i := by
  unfold pending
  rw [List.foldl_append]
  rfl

/-- The call marks the tenant active, or has it kept warm. -/
def Wakes (tenantId : ℕ) (e : Program.Exchange Reply) : Prop :=
  e = ⟨.sql (.touchLastActive tenantId), .ok ()⟩ ∨
    e = ⟨.sql (.setAlwaysWarm tenantId true), .ok ()⟩

/-- No tenant that a sweep has pending is marked active or kept warm. -/
def Calm (ls : List (Pool.Label (Program.Exchange Reply))) (pool : Pool Proc World) :
    Pool.Label (Program.Exchange Reply) → Prop
  | .start _ => True
  | .call _ e => ∀ i idleFor p, pool.threads i = some (.sweep idleFor p) →
      ∀ tenant ∈ pending ls i, ¬ Wakes tenant.id e

/-- A calm step of the processes, with the calls so far. -/
def CalmStep (C : Crypto) (s : List (Pool.Label (Program.Exchange Reply)) × Pool Proc World)
    (l : Pool.Label (Program.Exchange Reply))
    (s' : List (Pool.Label (Program.Exchange Reply)) × Pool Proc World) : Prop :=
  Pool.Step Proc.Next (Exec C) Proc.Starts s.2 l s'.2 ∧ s'.1 = s.1 ++ [l] ∧ Calm s.1 s.2 l

/-! ### Where a sweep is -/

/-- The tenant is in the tables, is not kept warm, and has been idle. -/
def World.Idle (w : World) (idleFor : ℕ) (tenant : Tenant) : Prop :=
  ∃ t ∈ w.db.tenants, t.id = tenant.id ∧ t.slug = tenant.slug ∧ t.alwaysWarm = false ∧
    t.lastActiveAt + idleFor ≤ w.clock

/-- `reap_idle` from the query on. -/
def reapFound (idleFor now : ℕ) : Handler (Except Str (List Str)) := do
  match ← sql (.findIdleRunningTenants (now - idleFor)) with
  | .error e => pure (.error e.toStr)
  | .ok tenants => reapTenants podmanOrchestrator tenants []

/-- The loop of `reap_idle` once a pod is stopped. -/
def reapStopped (tenant : Tenant) (tenants : List Tenant) (reaped : List Str) :
    Handler (Except Str (List Str)) := do
  match ← sql (.recordPodStopped tenant.id) with
  | .error _ => reapTenants podmanOrchestrator tenants reaped
  | .ok () => reapTenants podmanOrchestrator tenants (reaped ++ [tenant.slug])

theorem reapIdle_eq (idleFor : ℕ) :
    reapIdle podmanOrchestrator idleFor = .call .now fun now => reapFound idleFor now := rfl

theorem reapTenants_cons (tenant : Tenant) (tenants : List Tenant) (reaped : List Str) :
    reapTenants podmanOrchestrator (tenant :: tenants) reaped =
      .call (.podman (.rm (podName tenant.slug))) fun _ => reapStopped tenant tenants reaped := rfl

/-- What is left of a sweep, with the tenants that it has pending: they are idle. -/
inductive Sweeping (idleFor : ℕ) (w : World) :
    List Tenant → Handler (Except Str (List Str)) → Prop
  | start : Sweeping idleFor w [] (reapIdle podmanOrchestrator idleFor)
  | found {now : ℕ} (h : now ≤ w.clock) : Sweeping idleFor w [] (reapFound idleFor now)
  | reaping {tenants : List Tenant} (reaped : List Str) (h : ∀ t ∈ tenants, w.Idle idleFor t) :
      Sweeping idleFor w tenants (reapTenants podmanOrchestrator tenants reaped)
  | stopped (tenant : Tenant) {tenants : List Tenant} (reaped : List Str)
      (h : ∀ t ∈ tenants, w.Idle idleFor t) :
      Sweeping idleFor w tenants (reapStopped tenant tenants reaped)
  | failed (e : Str) : Sweeping idleFor w [] (.pure (.error e))

/-! ### What the calls do to an idle tenant -/

theorem Db.exists_tenant_updateTenant {db : Db} {t : Tenant} (h : t ∈ db.tenants) (tenantId : ℕ)
    (f : Tenant → Tenant) : t ∈ (db.updateTenant tenantId f).2.tenants ∨
      tenantId = t.id ∧ f t ∈ (db.updateTenant tenantId f).2.tenants := by
  unfold Db.updateTenant
  split_ifs
  · by_cases hid : t.id = tenantId
    · exact .inr ⟨hid.symm, List.mem_map.2 ⟨t, h, if_pos hid⟩⟩
    · exact .inl (List.mem_map.2 ⟨t, h, if_neg hid⟩)
  · exact .inl h

/-- The row of a tenant after a statement: only two statements make it active or keep it warm. -/
structure Tenant.After (q : Statement) (t t' : Tenant) : Prop where
  /-- The id stays. -/
  id : t'.id = t.id
  /-- The slug stays. -/
  slug : t'.slug = t.slug
  /-- The flag is as it was, or as `set_always_warm` says. -/
  alwaysWarm : t'.alwaysWarm = t.alwaysWarm ∨ q = .setAlwaysWarm t.id t'.alwaysWarm
  /-- The time is as it was, or `touch_last_active` set it. -/
  lastActiveAt : t'.lastActiveAt = t.lastActiveAt ∨ q = .touchLastActive t.id

theorem Statement.exists_after (q : Statement) (now : ℕ) {db : Db} {t : Tenant}
    (h : t ∈ db.tenants) : ∃ t' ∈ (q.run now db).2.tenants, t.After q t' := by
  have hkeep : ∀ {db' : Db}, t ∈ db'.tenants → ∃ t' ∈ db'.tenants, t.After q t' := fun h =>
    ⟨t, h, rfl, rfl, .inl rfl, .inl rfl⟩
  -- four statements write tenants that exist, each of them a field or two
  cases q with
  | createTenant slug =>
    refine hkeep ?_
    simp only [Statement.run, Db.createTenant]
    split_ifs
    · exact h
    · exact List.mem_append_left _ h
  | setAlwaysWarm tenantId alwaysWarm =>
    rcases db.exists_tenant_updateTenant h tenantId (fun t => { t with alwaysWarm := alwaysWarm })
      with hmem | ⟨rfl, hmem⟩
    · exact hkeep hmem
    · exact ⟨_, hmem, rfl, rfl, .inr rfl, .inl rfl⟩
  | recordPodStarted tenantId =>
    rcases db.exists_tenant_updateTenant h tenantId
      (fun t => { t with podRunning := true, podStartedAt := some now }) with hmem | ⟨rfl, hmem⟩
    · exact hkeep hmem
    · exact ⟨_, hmem, rfl, rfl, .inl rfl, .inl rfl⟩
  | recordPodStopped tenantId =>
    rcases db.exists_tenant_updateTenant h tenantId
      (fun t => { t with podRunning := false, podStartedAt := none }) with hmem | ⟨rfl, hmem⟩
    · exact hkeep hmem
    · exact ⟨_, hmem, rfl, rfl, .inl rfl, .inl rfl⟩
  | touchLastActive tenantId =>
    rcases db.exists_tenant_updateTenant h tenantId (fun t => { t with lastActiveAt := now })
      with hmem | ⟨rfl, hmem⟩
    · exact hkeep hmem
    · exact ⟨_, hmem, rfl, rfl, .inl rfl, .inr rfl⟩
  | registerDevice =>
    refine hkeep ?_
    simp only [Statement.run, Db.registerDevice]
    split_ifs <;> exact h
  | issueDeviceCertificate =>
    refine hkeep ?_
    simp only [Statement.run, Db.issueDeviceCertificate]
    split_ifs <;> exact h
  | createDeviceGrant =>
    refine hkeep ?_
    simp only [Statement.run, Db.createDeviceGrant]
    split_ifs <;> exact h
  | recordApprovedDevice =>
    refine hkeep ?_
    simp only [Statement.run, Db.recordApprovedDevice]
    split_ifs <;> exact h
  | _ => exact hkeep h

variable {C : Crypto} {w w' : World} {idleFor : ℕ} {tenant : Tenant}

theorem Exec.clock_le {C : Crypto} {w w' : World} {e : Program.Exchange Reply}
    (h : Exec C w e w') : w.clock ≤ w'.clock := by
  cases h with
  | fails => exact le_rfl
  | answers h =>
    cases h with
    | now hclock => exact hclock
    | podman hruns => cases hruns <;> exact le_rfl
    | _ => exact le_rfl

theorem Exec.now_le {C : Crypto} {w w' : World} {now : ℕ} (h : Exec C w ⟨.now, now⟩ w') :
    now ≤ w'.clock := by
  cases h with
  | fails h => cases h
  | answers h =>
    cases h with
    | now _ => exact le_rfl

theorem World.Idle.exec (h : w.Idle idleFor tenant) {e : Program.Exchange Reply}
    (hexec : Exec C w e w') (hwakes : ¬ Wakes tenant.id e) : w'.Idle idleFor tenant := by
  cases hexec with
  | fails => exact h
  | answers hanswers =>
    obtain ⟨t, ht, hid, hslug, hwarm, hidle⟩ := h
    cases hanswers with
    | sql q =>
      cases hresult : (q.run w.clock w.db).1 with
      | error error =>
        -- a statement that failed changed no row
        have hsame := Statement.run_error hresult
        exact ⟨t, hsame.tenants ▸ ht, hid, hslug, hwarm, hidle⟩
      | ok x =>
        obtain ⟨t', ht', hafter⟩ := q.exists_after w.clock ht
        refine ⟨t', ht', hafter.id.trans hid, hafter.slug.trans hslug, ?_, ?_⟩
        · rcases hafter.alwaysWarm with heq | rfl
          · exact heq.trans hwarm
          · refine Bool.eq_false_iff.2 fun htrue => hwakes (.inr ?_)
            rw [hresult, htrue, hid]
        · rcases hafter.lastActiveAt with heq | rfl
          · rwa [heq]
          · refine absurd (.inl ?_) hwakes
            rw [hresult, hid]
    | now hclock => exact ⟨t, ht, hid, hslug, hwarm, hidle.trans hclock⟩
    | podman hruns => cases hruns <;> exact ⟨t, ht, hid, hslug, hwarm, hidle⟩
    | _ => exact ⟨t, ht, hid, hslug, hwarm, hidle⟩

theorem World.idle_of_mem {now : ℕ} (h : now ≤ w.clock)
    (hmem : tenant ∈ w.db.findIdleRunningTenants (now - idleFor)) : w.Idle idleFor tenant := by
  obtain ⟨htenant, hfound⟩ := List.mem_filter.1 hmem
  obtain ⟨-, hwarm, hactive⟩ := of_decide_eq_true hfound
  exact ⟨tenant, htenant, rfl, rfl, hwarm, by omega⟩

/-- **A call of a sweep.**  What it has pending stays idle. -/
theorem Sweeping.next {tenants : List Tenant} {p p' : Handler (Except Str (List Str))}
    (h : Sweeping idleFor w tenants p) {e : Program.Exchange Reply} (hnext : Program.Next p e p')
    (hexec : Exec C w e w') (hcalm : ∀ tenant ∈ tenants, ¬ Wakes tenant.id e) :
    Sweeping idleFor w' (pendingNext tenants e) p' := by
  have hidle : ∀ tenant ∈ tenants, w.Idle idleFor tenant → w'.Idle idleFor tenant :=
    fun tenant htenant hidle => hidle.exec hexec (hcalm tenant htenant)
  cases h with
  | start =>
    rw [reapIdle_eq, Program.next_call] at hnext
    obtain ⟨now, rfl, rfl⟩ := hnext
    exact .found hexec.now_le
  | found hnow =>
    obtain ⟨r, rfl, rfl⟩ := Program.next_call.1 hnext
    rcases r with error | tenants
    · exact .failed _
    · obtain ⟨hresult, rfl⟩ := hexec.sql_ok
      obtain rfl := Except.ok.inj hresult
      exact .reaping [] fun tenant htenant => World.idle_of_mem hnow htenant
  | reaping reaped hall =>
    cases tenants with
    | nil => exact absurd hnext Program.not_next_pure
    | cons tenant tenants =>
      rw [reapTenants_cons, Program.next_call] at hnext
      obtain ⟨r, rfl, rfl⟩ := hnext
      exact .stopped tenant reaped fun t ht =>
        hidle t (List.mem_cons_of_mem _ ht) (hall t (List.mem_cons_of_mem _ ht))
  | stopped tenant reaped hall =>
    obtain ⟨r, rfl, rfl⟩ := Program.next_call.1 hnext
    rcases r with error | ⟨⟩
    · exact .reaping _ fun t ht => hidle t ht (hall t ht)
    · exact .reaping _ fun t ht => hidle t ht (hall t ht)
  | failed e => exact absurd hnext Program.not_next_pure

theorem Sweeping.exec {tenants : List Tenant} {p : Handler (Except Str (List Str))}
    (h : Sweeping idleFor w tenants p) {e : Program.Exchange Reply} (hexec : Exec C w e w')
    (hcalm : ∀ tenant ∈ tenants, ¬ Wakes tenant.id e) : Sweeping idleFor w' tenants p := by
  have hidle : ∀ tenant ∈ tenants, w.Idle idleFor tenant → w'.Idle idleFor tenant :=
    fun tenant htenant hidle => hidle.exec hexec (hcalm tenant htenant)
  cases h with
  | start => exact .start
  | found hnow => exact .found (hnow.trans hexec.clock_le)
  | reaping reaped hall => exact .reaping reaped fun t ht => hidle t ht (hall t ht)
  | stopped tenant reaped hall => exact .stopped tenant reaped fun t ht => hidle t ht (hall t ht)
  | failed e => exact .failed e

theorem Sweeping.idle_of_rm {tenants : List Tenant} {p p' : Handler (Except Str (List Str))}
    (h : Sweeping idleFor w tenants p) {pod : Str} {r : Except Str Unit}
    (hnext : Program.Next p ⟨.podman (.rm pod), r⟩ p') :
    ∃ tenant, pod = podName tenant.slug ∧ w.Idle idleFor tenant := by
  cases h with
  | start =>
    rw [reapIdle_eq, Program.next_call] at hnext
    obtain ⟨now, h, -⟩ := hnext
    cases h
  | found hnow =>
    obtain ⟨r, h, -⟩ := Program.next_call.1 hnext
    cases h
  | reaping reaped hall =>
    cases tenants with
    | nil => exact absurd hnext Program.not_next_pure
    | cons tenant tenants =>
      rw [reapTenants_cons, Program.next_call] at hnext
      obtain ⟨r, h, -⟩ := hnext
      cases h
      exact ⟨tenant, rfl, hall tenant List.mem_cons_self⟩
  | stopped tenant reaped hall =>
    obtain ⟨r, h, -⟩ := Program.next_call.1 hnext
    cases h
  | failed e => exact absurd hnext Program.not_next_pure

/-! ### Runs -/

/-- The pending tenants of all sweeps are idle. -/
structure Reaping (ls : List (Pool.Label (Program.Exchange Reply))) (pool : Pool Proc World) :
    Prop where
  /-- The tables are well-formed. -/
  wellFormed : pool.state.db.WellFormed
  /-- A process that has not started has nothing pending. -/
  idle : ∀ i, pool.threads i = none → pending ls i = []
  /-- A sweep is somewhere in its program. -/
  sweeping : ∀ i idleFor p, pool.threads i = some (.sweep idleFor p) →
    Sweeping idleFor pool.state (pending ls i) p

/-- **A calm step.**  Pending tenants stay idle. -/
theorem Reaping.step {ls : List (Pool.Label (Program.Exchange Reply))} {pool pool' : Pool Proc World}
    {l : Pool.Label (Program.Exchange Reply)} (h : Reaping ls pool)
    (hstep : Pool.Step Proc.Next (Exec C) Proc.Starts pool l pool') (hcalm : Calm ls pool l) :
    Reaping (ls ++ [l]) pool' := by
  cases hstep with
  | @start threads w i p hfree hstart =>
    -- a sweep that starts has found nobody yet
    refine ⟨h.wellFormed, fun j hj => ?_, fun j idleFor q hq => ?_⟩
    · rw [pending_start]
      refine h.idle j ?_
      dsimp only at hj ⊢
      by_cases hji : j = i
      · rw [hji]
        exact hfree
      · rwa [Function.update_of_ne hji] at hj
    · rw [pending_start]
      dsimp only at hq ⊢
      by_cases hji : j = i
      · rw [hji, Function.update_self] at hq
        obtain rfl := Option.some.inj hq
        rw [hji, h.idle i hfree]
        cases hstart
        exact .start
      · rw [Function.update_of_ne hji] at hq
        exact h.sweeping j idleFor q hq
  | @call threads w w' i p p' e hthread hnext hexec =>
    -- a sweep goes on by its own calls; those of others leave it where it is
    refine ⟨hexec.wellFormed h.wellFormed, fun j hj => ?_, fun j idleFor q hq => ?_⟩
    · dsimp only at hj
      have hji : j ≠ i := by
        rintro rfl
        rw [Function.update_self] at hj
        cases hj
      rw [Function.update_of_ne hji] at hj
      rw [pending_call, if_neg hji.symm]
      exact h.idle j hj
    · rw [pending_call]
      dsimp only at hq ⊢
      by_cases hji : j = i
      · rw [hji, Function.update_self] at hq
        obtain rfl := Option.some.inj hq
        rw [hji, if_pos rfl]
        cases hnext with
        | sweep hnext =>
          exact (h.sweeping i idleFor _ hthread).next hnext hexec (hcalm i idleFor _ hthread)
      · rw [Function.update_of_ne hji] at hq
        rw [if_neg (Ne.symm hji)]
        exact (h.sweeping j idleFor q hq).exec hexec (hcalm j idleFor q hq)

theorem World.Idle.not_active {t : Tenant} (h : w.Idle idleFor tenant) (hw : w.db.WellFormed)
    (ht : t ∈ w.db.tenants) (hslug : t.slug = tenant.slug) : ¬ t.Active idleFor w.clock := by
  obtain ⟨t', ht', -, hslug', hwarm, hidle⟩ := h
  obtain rfl := hw.slug.eq_of_key_eq ht ht' (hslug.trans hslug'.symm)
  rintro (htrue | hlt)
  · rw [hwarm] at htrue
    cases htrue
  · exact absurd hidle (not_le.2 hlt)

/-- **After calm steps, a sweep stops no active tenant**: the tenant of the pod that it removes next is
neither kept warm nor was it active less than the idle time ago. -/
theorem reaps_idle {w₀ : World} (hw : w₀.db.WellFormed)
    {ls ls' : List (Pool.Label (Program.Exchange Reply))} {pool : Pool Proc World}
    (run : Trace.Run (CalmStep C) ([], ⟨fun _ => none, w₀⟩) ls (ls', pool)) {i idleFor : ℕ}
    {p p' : Handler (Except Str (List Str))} (hthread : pool.threads i = some (.sweep idleFor p))
    {slug : Str} {r : Except Str Unit}
    (hnext : Program.Next p ⟨.podman (.rm (podName slug)), r⟩ p') :
    ∀ t ∈ pool.state.db.tenants, t.slug = slug → ¬ t.Active idleFor pool.state.clock := by
  have h : Reaping ls' pool := by
    refine run.invariant (I := fun s => Reaping s.1 s.2) ?_ ?_
    · rintro ⟨hist, pool₁⟩ l ⟨hist', pool₂⟩ h ⟨hstep, rfl, hcalm⟩
      exact h.step hstep hcalm
    · exact ⟨hw, fun _ _ => rfl, fun _ _ _ hi => by cases hi⟩
  intro t ht hslug
  obtain ⟨tenant, hpod, hidle⟩ := (h.sweeping i idleFor p hthread).idle_of_rm hnext
  exact hidle.not_active h.wellFormed ht (hslug.trans (podName_injective hpod))

/-! ### A sweep with a request in between -/

/-- A tenant whose pod is running, and that was last active long ago. -/
def exampleTenant : Tenant := ⟨1, "acme".toList, false, true, some 0, 0⟩

/-- A hub with that tenant, and one that was active a while ago. -/
def exampleIdle : World :=
  { db := { tenants := [exampleTenant, ⟨2, "umbrella".toList, false, true, some 0, 95⟩],
            nextTenantId := 3 } }

theorem exampleIdle_wellFormed : exampleIdle.db.WellFormed := by
  constructor <;> simp [exampleIdle, exampleTenant, Table.Keyed]

/-- A pool of one sweep. -/
def examplePool (p : Handler (Except Str (List Str))) (w : World) : Pool Proc World :=
  ⟨Function.update (fun _ => none) 0 (some (.sweep 10 p)), w⟩

theorem step_examplePool {p p' : Handler (Except Str (List Str))} {e : Program.Exchange Reply}
    (hnext : Program.Next p e p') (hexec : Exec C w e w') :
    Pool.Step Proc.Next (Exec C) Proc.Starts (examplePool p w) (.call 0 e) (examplePool p' w') := by
  have hstep : Pool.Step Proc.Next (Exec C) Proc.Starts (examplePool p w) (.call 0 e) _ :=
    .call (Function.update_self ..) (.sweep hnext) hexec
  rwa [Function.update_idem] at hstep

/-- A sweep has found the tenant idle. -/
def Found (ls : List (Pool.Label (Program.Exchange Reply))) (tenant : Tenant) : Prop :=
  ∃ i before tenants, Pool.Label.call i ⟨.sql (.findIdleRunningTenants before), .ok tenants⟩ ∈ ls ∧
    tenant ∈ tenants

theorem found_of_mem_pending {ls : List (Pool.Label (Program.Exchange Reply))} {i : ℕ}
    {tenant : Tenant} (h : tenant ∈ pending ls i) : Found ls tenant := by
  induction ls using List.reverseRecOn with
  | nil => cases h
  | append_singleton ls l ih =>
    have hbefore : ∀ {tenant}, Found ls tenant → Found (ls ++ [l]) tenant := by
      rintro tenant ⟨j, before, tenants, hcall, htenant⟩
      exact ⟨j, before, tenants, List.mem_append_left _ hcall, htenant⟩
    cases l with
    | start j =>
      rw [pending_start] at h
      exact hbefore (ih h)
    | call j e =>
      rw [pending_call] at h
      split_ifs at h with hji
      · unfold pendingNext at h
        split at h
        case h_1 before tenants => exact ⟨j, before, tenants, by simp, h⟩
        case h_2 => exact hbefore (ih (List.mem_of_mem_tail h))
        case h_3 => exact hbefore (ih h)
      · exact hbefore (ih h)

/-- A run in which nobody is woken that a sweep has found is calm. -/
theorem calmRun_of {ls hist : List (Pool.Label (Program.Exchange Reply))} {pool pool' : Pool Proc World}
    (run : Pool.Run Proc.Next (Exec C) Proc.Starts pool ls pool')
    (h : ∀ i e, Pool.Label.call i e ∈ ls → ∀ tenant, Found (hist ++ ls) tenant →
      ¬ Wakes tenant.id e) :
    Trace.Run (CalmStep C) (hist, pool) ls (hist ++ ls, pool') := by
  induction run generalizing hist with
  | nil =>
    rw [List.append_nil]
    exact .nil _
  | @cons pool pool₁ pool₂ l ls hstep _ ih =>
    have hsplit : hist ++ [l] ++ ls = hist ++ l :: ls := by rw [List.append_assoc]; rfl
    have hrest := @ih (hist ++ [l]) fun i e he => hsplit ▸ h i e (List.mem_cons_of_mem _ he)
    rw [hsplit] at hrest
    refine .cons ⟨hstep, rfl, ?_⟩ hrest
    cases l with
    | start => trivial
    | call i e =>
      intro j _ _ _ tenant hpending
      obtain ⟨k, before, tenants, hcall, htenant⟩ := found_of_mem_pending hpending
      exact h i e List.mem_cons_self tenant
        ⟨k, before, tenants, List.mem_append_left _ hcall, htenant⟩

/-- A sweep that has found its idle tenants. -/
def exampleFound : List (Pool.Label (Program.Exchange Reply)) :=
  [.start 0, .call 0 ⟨.now, (100 : ℕ)⟩,
    .call 0 ⟨.sql (.findIdleRunningTenants 90), .ok [exampleTenant]⟩]

/-- The hub then. -/
def exampleLater : World := { exampleIdle with clock := 100 }

/-- The rest of the sweep: the pod of the tenant is removed next. -/
def exampleRest : Handler (Except Str (List Str)) :=
  .call (.podman (.rm (podName "acme".toList))) fun _ => reapStopped exampleTenant [] []

theorem next_exampleRest : Program.Next exampleRest
    ⟨.podman (.rm (podName "acme".toList)), .ok ()⟩ (reapStopped exampleTenant [] []) := by
  rw [exampleRest, Program.next_call]
  exact ⟨_, rfl, rfl⟩

theorem run_exampleFound : Pool.Run Proc.Next (Exec exampleCrypto) Proc.Starts
    ⟨fun _ => none, exampleIdle⟩ exampleFound (examplePool exampleRest exampleLater) := by
  have hnow : Exec exampleCrypto exampleIdle ⟨.now, (100 : ℕ)⟩ exampleLater :=
    .answers (.now (Nat.zero_le 100))
  have hfound : Exec exampleCrypto exampleLater
      ⟨.sql (.findIdleRunningTenants 90), .ok [exampleTenant]⟩ exampleLater :=
    .answers (.sql exampleLater (.findIdleRunningTenants 90))
  have hnextNow : Program.Next (reapIdle podmanOrchestrator 10) ⟨.now, (100 : ℕ)⟩
      (reapFound 10 100) := by
    rw [reapIdle_eq, Program.next_call]
    exact ⟨_, rfl, rfl⟩
  have hnextFound : Program.Next (reapFound 10 100)
      ⟨.sql (.findIdleRunningTenants 90), .ok [exampleTenant]⟩ exampleRest :=
    Program.next_call.2 ⟨_, rfl, rfl⟩
  exact .cons (.start exampleIdle rfl (.sweep 10)) (.cons (step_examplePool hnextNow hnow)
    (.single (step_examplePool hnextFound hfound)))

/-- The pool after a request that marks a tenant active. -/
def exampleTouched (tenantId : ℕ) : Pool Proc World where
  threads :=
    Function.update (examplePool exampleRest exampleLater).threads 1 (some (.other (.pure ())))
  state :=
    { exampleLater with db := ((Statement.touchLastActive tenantId).run 100 exampleLater.db).2 }

/-- The sweep and the request. -/
def exampleTouches (tenantId : ℕ) : List (Pool.Label (Program.Exchange Reply)) :=
  exampleFound ++ [.start 1, .call 1 ⟨.sql (.touchLastActive tenantId), .ok ()⟩]

theorem run_exampleTouched {tenantId : ℕ}
    (h : ((Statement.touchLastActive tenantId).run 100 exampleLater.db).1 = .ok ()) :
    Pool.Run Proc.Next (Exec exampleCrypto) Proc.Starts ⟨fun _ => none, exampleIdle⟩
      (exampleTouches tenantId) (exampleTouched tenantId) := by
  have hstart : Pool.Step Proc.Next (Exec exampleCrypto) Proc.Starts
      (examplePool exampleRest exampleLater) (.start 1) _ :=
    .start exampleLater rfl (.other (.call (.sql (.touchLastActive tenantId)) fun _ => .pure ()))
  have htouch : Exec exampleCrypto exampleLater ⟨.sql (.touchLastActive tenantId),
      ((Statement.touchLastActive tenantId).run 100 exampleLater.db).1⟩
      (exampleTouched tenantId).state :=
    .answers (.sql exampleLater (.touchLastActive tenantId))
  rw [h] at htouch
  have hnext : Program.Next (.call (.sql (.touchLastActive tenantId)) fun _ => .pure () : Handler Unit)
      ⟨.sql (.touchLastActive tenantId), .ok ()⟩ (.pure ()) :=
    Program.next_call.2 ⟨_, rfl, rfl⟩
  have hcall : Pool.Step Proc.Next (Exec exampleCrypto) Proc.Starts _
      (.call 1 ⟨.sql (.touchLastActive tenantId), .ok ()⟩) _ :=
    .call (Function.update_self (1 : ℕ) _ (examplePool exampleRest exampleLater).threads)
      (.other hnext) htouch
  rw [Function.update_idem] at hcall
  exact run_exampleFound.append (.cons hstart (.single hcall))

/-- A tenant that nobody wakes is stopped while it is idle, and another one is woken. -/
theorem reaps_idle_exampleFound :
    (∀ t ∈ (exampleTouched 2).state.db.tenants, t.slug = "acme".toList →
      ¬ t.Active 10 (exampleTouched 2).state.clock) ∧
    ∃ t ∈ (exampleTouched 2).state.db.tenants, t.slug = "umbrella".toList ∧ t.lastActiveAt = 100 := by
  have hcalm : Trace.Run (CalmStep exampleCrypto) ([], ⟨fun _ => none, exampleIdle⟩)
      (exampleTouches 2) ([] ++ exampleTouches 2, exampleTouched 2) := by
    refine calmRun_of (run_exampleTouched (by decide)) fun i e he tenant hfound => ?_
    obtain rfl : tenant = exampleTenant := by
      obtain ⟨j, before, tenants, hcall, htenant⟩ := hfound
      simp only [exampleTouches, exampleFound, List.nil_append, List.cons_append, List.mem_cons,
        List.not_mem_nil, or_false, reduceCtorEq, false_or] at hcall
      rcases hcall with hcall | hcall | hcall <;> cases hcall
      exact List.mem_singleton.1 htenant
    simp only [exampleTouches, exampleFound, List.cons_append, List.nil_append, List.mem_cons,
      List.not_mem_nil, or_false] at he
    rcases he with he | he | he | he | he <;> cases he <;> rintro (h | h) <;> cases h
  have hthread : (exampleTouched 2).threads 0 = some (.sweep 10 exampleRest) := rfl
  refine ⟨reaps_idle exampleIdle_wellFormed hcalm hthread next_exampleRest,
    ⟨2, "umbrella".toList, false, true, some 0, 100⟩, ?_, rfl, rfl⟩
  exact List.mem_cons_of_mem _ List.mem_cons_self

/-- **A sweep stops a tenant that a request has marked active since the sweep found it idle.** -/
theorem not_reaps_idle : ∃ ls pool p p', Pool.Run Proc.Next (Exec exampleCrypto) Proc.Starts
    ⟨fun _ => none, exampleIdle⟩ ls pool ∧ pool.threads 0 = some (.sweep 10 p) ∧
    Program.Next p ⟨.podman (.rm (podName "acme".toList)), .ok ()⟩ p' ∧
    ∃ t ∈ pool.state.db.tenants, t.slug = "acme".toList ∧ t.Active 10 pool.state.clock := by
  refine ⟨_, _, _, _, @run_exampleTouched 1 (by decide), rfl, next_exampleRest,
    { exampleTenant with lastActiveAt := 100 }, ?_, rfl, .inr ?_⟩
  · exact List.mem_cons_self
  · decide

end Hub

end Wkp
