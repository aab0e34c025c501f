import Wkp.Hub.Isolated

/-!
# Which pods are recorded as running

Cold starts, `start-pod`, `stop-pod` and sweeps, command by command in any order, each of them with
success or failure.

* `Hub.PodTask` : what runs.
* `Hub.serving` : the pod whose serving container a process has run and not recorded yet.
* `Hub.Clean` : a start does not fail once its serving container runs, and no stop is recorded for a
  pod that runs and that nobody is starting.
* `Hub.Recording.step` : **a running pod is recorded, or a process that is starting it will.**
* `Hub.running_recorded` : **after clean steps, when all processes are done, every running pod is
  recorded.**
-/

namespace Wkp

open Rust

namespace Hub

/-! ### What runs -/

/-- A program whose result does not matter. -/
def Task {α : Type} (p : Handler α) : Handler Unit := p.bind fun _ => .pure ()

/-- A cold start, a command or a sweep. -/
inductive PodTask : Handler Unit → Prop
  | gitHttp (F : FrontDoor) (request : Incoming) (method : Str) (route : GitHttpRoute)
      (peerCert : Option (List UInt8)) : PodTask (Task (handleGitHttp
        { F with orchestrator := podmanOrchestrator } request method route peerCert))
  | startPod (image reposRoot tenantSlug : Str) :
      PodTask (Task (startPodCommand podmanOrchestrator image reposRoot tenantSlug))
  | stopPod (tenantSlug : Str) : PodTask (Task (stopPodCommand podmanOrchestrator tenantSlug))
  | reapIdle (idleFor : ℕ) : PodTask (Task (reapIdlePodsCommand podmanOrchestrator idleFor))

/-- A container of the pod is running. -/
def Pod.IsRunning (pod : Pod) : Prop := pod.serve = true ∨ pod.index = true

/-- The pod of the tenant is running. -/
def World.Running (w : World) (slug : Str) : Prop :=
  ∃ pod, w.pods (podName slug) = some pod ∧ pod.IsRunning

/-- The running pods are recorded. -/
def World.Recorded (w : World) : Prop :=
  ∀ tenant ∈ w.db.tenants, w.Running tenant.slug → tenant.podRunning = true

/-! ### Who is starting a pod -/

/-- The pod that a process has run the serving container of, after a call.  It is done when the start
is recorded, or when there is no tenant to record it for. -/
def servingNext (g : Option Str) : Program.Exchange Reply → Option Str
  | ⟨.podman (.runServe pod _ _ _ _), .ok ()⟩ => some pod
  | ⟨.sql (.recordPodStarted _), .ok ()⟩ => none
  | ⟨.sql (.findTenantBySlug _), .ok none⟩ => none
  | _ => g

/-- The pod whose serving container a process has run and not recorded yet. -/
def serving (ls : List (Pool.Label (Program.Exchange Reply))) (i : ℕ) : Option Str :=
  ls.foldl (fun g l => match l with
    | .call j e => if j = i then servingNext g e else g
    | .start _ => g) none

theorem serving_call (ls : List (Pool.Label (Program.Exchange Reply))) (i j : ℕ)
    (e : Program.Exchange Reply) : serving (ls ++ [.call j e]) i =
      if j = i then servingNext (serving ls i) e else serving ls i := by
  unfold serving
  rw [List.foldl_append]
  rfl

theorem serving_start (ls : List (Pool.Label (Program.Exchange Reply))) (i j : ℕ) :
    serving (ls ++ [.start j]) i = serving ls i := by
  unfold serving
  rw [List.foldl_append]
  rfl

/-- A start does not fail once its serving container runs, and no stop is recorded for a pod that runs
and that nobody is starting. -/
def Clean (ls : List (Pool.Label (Program.Exchange Reply))) (w : World) :
    Pool.Label (Program.Exchange Reply) → Prop
  | .start _ => True
  | .call i e => (serving ls i ≠ none → ¬ Fails e.1 e.2) ∧
    ∀ tenant ∈ w.db.tenants, e = ⟨.sql (.recordPodStopped tenant.id), .ok ()⟩ →
      w.Running tenant.slug → ∃ j, serving ls j = some (podName tenant.slug)

/-- A clean step of the processes, with the calls so far. -/
def CleanStep (C : Crypto)
    (s : List (Pool.Label (Program.Exchange Reply)) × Pool (Handler Unit) World)
    (l : Pool.Label (Program.Exchange Reply))
    (s' : List (Pool.Label (Program.Exchange Reply)) × Pool (Handler Unit) World) : Prop :=
  Pool.Step Program.Next (Exec C) PodTask s.2 l s'.2 ∧ s'.1 = s.1 ++ [l] ∧ Clean s.1 s.2.state l

/-! ### The protocol of the processes -/

section Protocol

variable (db₀ : Db)

/-- A call of a process that is starting a pod, or is not. -/
def PodCalls (g : Option Str) : Call → Prop
  | .connect | .now | .proxy _ => True
  | .sql (.findTenantBySlug slug) => g = none ∨ g = some (podName slug)
  | .sql (.findDeviceByCertSerial _) | .sql (.touchLastActive _)
  | .sql (.findIdleRunningTenants _) => g = none
  | .sql (.recordPodStarted id) => g = none ∨
      ∃ tenant ∈ db₀.tenants, tenant.id = id ∧ g = some (podName tenant.slug)
  | .sql (.recordPodStopped _) => g = none
  | .podman (.inspect _) | .podman .networkExists | .podman .networkCreate
  | .podman (.rm _) | .podman (.create _ _) | .podman (.runServe _ _ _ _ _) => g = none
  | .podman (.writeSeccompProfile _) => True
  | .podman (.runIndex pod _ _ _ _ _) => g = some pod
  | _ => False

/-- The pod that the process is starting next.  A start does not fail once its serving container runs,
and a tenant that is found is in the tables. -/
structure PodNext (g : Option Str) (e : Program.Exchange Reply) (g' : Option Str) : Prop where
  /-- What the call starts or records. -/
  eq : g' = servingNext g e
  /-- A start does not fail. -/
  clean : g ≠ none → ¬ Fails e.1 e.2
  /-- A tenant that is found is in the tables. -/
  named : ∀ slug tenant, e = ⟨.sql (.findTenantBySlug slug), .ok (some tenant)⟩ →
    ∃ t ∈ db₀.tenants, t.id = tenant.id ∧ t.slug = slug

/-- The program runs containers and records them as the processes do. -/
abbrev Records {α : Type} (post : Option Str → α → Prop) (g : Option Str) (p : Handler α) : Prop :=
  p.Follows (PodCalls db₀) (PodNext db₀) post g

variable {db₀}

theorem PodNext.none_of_fails {g g' : Option Str} {e : Program.Exchange Reply}
    (h : PodNext db₀ g e g') (hfails : Fails e.1 e.2) : g = none := by
  by_contra hne
  exact h.clean hne hfails

/-- What `start_pod` leaves: it has run the serving container, or there was nothing to do. -/
def Started (tenantSlug : Str) (g : Option Str) : Except Str Unit → Prop
  | .ok () => g = none ∨ g = some (podName tenantSlug)
  | .error _ => g = none

namespace Podman

theorem records_ensureNetwork : Records db₀ (fun g _ => g = none) none ensureNetwork := by
  refine ⟨rfl, fun r g' hg' => ?_⟩
  rcases r with e | _ | _
  · exact hg'.eq
  · refine ⟨hg'.eq, fun r g'' hg'' => ?_⟩
    rw [hg'.eq] at hg''
    exact hg''.eq
  · exact hg'.eq

theorem records_podIsRunning (pod : Str) :
    Records db₀ (fun g _ => g = none) none (podIsRunning pod) := by
  refine ⟨rfl, fun r g' hg' => ?_⟩
  rcases r with e | _ | state
  · exact hg'.eq
  · exact hg'.eq
  · exact hg'.eq

theorem records_startIndex (image reposRoot tenantSlug : Str) :
    Records db₀ (Started tenantSlug) (some (podName tenantSlug))
      (startIndex image reposRoot tenantSlug) := by
  refine ⟨trivial, fun r g' hg' => ?_⟩
  rcases r with e | ⟨⟩
  · cases hg'.none_of_fails (.writeSeccompProfile _ _)
  · obtain rfl := hg'.eq
    refine ⟨rfl, fun r g'' hg'' => ?_⟩
    rcases r with e | ⟨⟩
    · cases hg''.none_of_fails (.runIndex _ _ _ _ _ _ _)
    · exact .inr hg''.eq

theorem records_startServe (image reposRoot tenantSlug : Str) :
    Records db₀ (Started tenantSlug) none (startServe image reposRoot tenantSlug) := by
  refine ⟨rfl, fun r g' hg' => ?_⟩
  rcases r with e | ⟨⟩
  · exact hg'.eq
  · obtain rfl := hg'.eq
    exact records_startIndex image reposRoot tenantSlug

theorem records_recreatePod (image reposRoot tenantSlug : Str) :
    Records db₀ (Started tenantSlug) none (recreatePod image reposRoot tenantSlug) := by
  refine ⟨rfl, fun r g' hg' => ?_⟩
  obtain rfl : g' = none := by
    rcases r with e | ⟨⟩ <;> exact hg'.eq
  refine ⟨rfl, fun r g' hg' => ?_⟩
  rcases r with e | ⟨⟩
  · exact hg'.eq
  · obtain rfl := hg'.eq
    exact records_startServe image reposRoot tenantSlug

theorem records_startPod (image reposRoot tenantSlug : Str) :
    Records db₀ (Started tenantSlug) none (startPod image reposRoot tenantSlug) := by
  refine (records_podIsRunning _).bind fun g r hg => ?_
  obtain rfl := hg
  rcases r with e | _ | _
  · rfl
  · refine records_ensureNetwork.bind fun g r hg => ?_
    obtain rfl := hg
    rcases r with e | ⟨⟩
    · rfl
    · exact records_recreatePod image reposRoot tenantSlug
  · exact .inl rfl

theorem records_stopPod (tenantSlug : Str) :
    Records db₀ (fun g r => g = none ∧ r = .ok ()) none (stopPod tenantSlug) := by
  refine ⟨rfl, fun r g' hg' => ?_⟩
  rcases r with e | ⟨⟩ <;> exact ⟨hg'.eq, rfl⟩

end Podman

theorem records_reapTenants (tenants : List Tenant) (reaped : List Str) :
    Records db₀ (fun g _ => g = none) none (reapTenants podmanOrchestrator tenants reaped) := by
  induction tenants generalizing reaped with
  | nil => rfl
  | cons tenant tenants ih =>
    refine (Podman.records_stopPod tenant.slug).bind fun g r hg => ?_
    obtain ⟨rfl, rfl⟩ := hg
    refine ⟨rfl, fun r g' hg' => ?_⟩
    rcases r with e | ⟨⟩
    · obtain rfl := hg'.eq
      exact ih reaped
    · obtain rfl := hg'.eq
      exact ih _

theorem records_reapIdlePodsCommand (idleFor : ℕ) :
    Records db₀ (fun g _ => g = none) none (reapIdlePodsCommand podmanOrchestrator idleFor) := by
  refine ⟨trivial, fun r g' hg' => ?_⟩
  obtain rfl : g' = none := by
    rcases r with e | ⟨⟩ <;> exact hg'.eq
  rcases r with e | ⟨⟩
  · rfl
  · refine ⟨trivial, fun now g' hg' => ?_⟩
    obtain rfl := hg'.eq
    refine ⟨rfl, fun r g' hg' => ?_⟩
    obtain rfl : g' = none := by
      rcases r with e | tenants <;> exact hg'.eq
    rcases r with e | tenants
    · rfl
    · exact records_reapTenants tenants []

/-- `start-pod` keeps to the protocol: it records the pod that it has started. -/
theorem records_startPodCommand (image reposRoot tenantSlug : Str) :
    Records db₀ (fun g _ => g = none) none
      (startPodCommand podmanOrchestrator image reposRoot tenantSlug) := by
  refine (Podman.records_startPod image reposRoot tenantSlug).bind fun g r hg => ?_
  rcases r with e | ⟨⟩
  · exact hg
  · refine ⟨trivial, fun r g' hg' => ?_⟩
    rcases r with e | ⟨⟩
    · exact hg'.eq.trans (hg'.none_of_fails (.connect e))
    · obtain rfl := hg'.eq
      refine ⟨hg, fun r g' hg' => ?_⟩
      rcases r with e | _ | tenant
      · exact hg'.eq.trans (hg'.none_of_fails (.sql _ e))
      · exact hg'.eq
      · obtain rfl := hg'.eq
        obtain ⟨t, ht, hid, hslug⟩ := hg'.named _ _ rfl
        refine ⟨?_, fun r g' hg' => ?_⟩
        · rcases hg with rfl | rfl
          · exact .inl rfl
          · exact .inr ⟨t, ht, hid, by rw [hslug]⟩
        · rcases r with e | ⟨⟩
          · exact hg'.eq.trans (hg'.none_of_fails (.sql _ e))
          · exact hg'.eq

theorem records_stopPodCommand (tenantSlug : Str) :
    Records db₀ (fun g _ => g = none) none (stopPodCommand podmanOrchestrator tenantSlug) := by
  refine (Podman.records_stopPod tenantSlug).bind fun g r hg => ?_
  obtain ⟨rfl, rfl⟩ := hg
  refine ⟨trivial, fun r g' hg' => ?_⟩
  obtain rfl : g' = none := by
    rcases r with e | ⟨⟩ <;> exact hg'.eq
  rcases r with e | ⟨⟩
  · rfl
  · refine ⟨.inl rfl, fun r g' hg' => ?_⟩
    obtain rfl : g' = none := by
      rcases r with e | _ | tenant <;> exact hg'.eq
    rcases r with e | _ | tenant
    · rfl
    · rfl
    · refine ⟨rfl, fun r g' hg' => ?_⟩
      obtain rfl : g' = none := by
        rcases r with e | ⟨⟩ <;> exact hg'.eq
      rcases r with e | ⟨⟩ <;> rfl

theorem records_proxyAttempts (request : ProxyRequest) (attempts : ℕ) :
    Records db₀ (fun g _ => g = none) none (proxyAttempts request attempts) := by
  induction attempts with
  | zero => rfl
  | succ attempts ih =>
    refine ⟨trivial, fun r g' hg' => ?_⟩
    obtain rfl := hg'.eq
    rcases r with e | response
    · exact ih
    · rfl

theorem records_relayGitHttp (request : Incoming) (method : Str) (route : GitHttpRoute) :
    Records db₀ (fun g _ => g = none) none (relayGitHttp request method route) := by
  unfold relayGitHttp proxyToTenantPod
  split_ifs
  · exact records_proxyAttempts _ 10
  · exact records_proxyAttempts _ 10
  · rfl

/-- A cold start keeps to the protocol: it records the pod that it has started. -/
theorem records_coldStart (F : FrontDoor) (request : Incoming) (method : Str) (route : GitHttpRoute)
    (tenant : Tenant) (hnamed : ∃ t ∈ db₀.tenants, t.id = tenant.id ∧ t.slug = route.tenantSlug) :
    Records db₀ (fun g _ => g = none) none
      (coldStart { F with orchestrator := podmanOrchestrator } request method route tenant) := by
  refine (Podman.records_startPod F.image F.reposRoot route.tenantSlug).bind fun g r hg => ?_
  rcases r with e | ⟨⟩
  · exact hg
  · obtain ⟨t, ht, hid, hslug⟩ := hnamed
    refine ⟨?_, fun r g' hg' => ?_⟩
    · rcases hg with rfl | rfl
      · exact .inl rfl
      · exact .inr ⟨t, ht, hid, by rw [hslug]⟩
    · obtain rfl : g' = none := by
        rcases r with e | ⟨⟩
        · exact hg'.eq.trans (hg'.none_of_fails (.sql _ e))
        · exact hg'.eq
      exact records_relayGitHttp request method route

theorem records_handleGitHttp (F : FrontDoor) (request : Incoming) (method : Str)
    (route : GitHttpRoute) (peerCert : Option (List UInt8)) :
    Records db₀ (fun g _ => g = none) none
      (handleGitHttp { F with orchestrator := podmanOrchestrator } request method route
        peerCert) := by
  -- call by call: a lookup leaves the process where it is, and any other reply ends it
  unfold handleGitHttp
  split_ifs
  · rfl
  · rcases peerCert with _ | der
    · rfl
    · dsimp only
      cases F.certSerialHex der with
      | none => rfl
      | some certSerial =>
        refine ⟨trivial, fun r g' hg' => ?_⟩
        obtain rfl : g' = none := by
          rcases r with e | ⟨⟩ <;> exact hg'.eq
        rcases r with e | ⟨⟩
        · rfl
        · refine ⟨rfl, fun r g' hg' => ?_⟩
          obtain rfl : g' = none := by
            rcases r with e | _ | device <;> exact hg'.eq
          rcases r with e | _ | device
          · rfl
          · rfl
          · simp only [Program.pure_bind]
            split_ifs
            · rfl
            · refine ⟨.inl rfl, fun r g' hg' => ?_⟩
              obtain rfl : g' = none := by
                rcases r with e | _ | tenant <;> exact hg'.eq
              rcases r with e | _ | tenant
              · rfl
              · rfl
              · have hnamed := hg'.named _ _ rfl
                simp only [Program.pure_bind]
                split_ifs
                · rfl
                · refine ⟨rfl, fun r g' hg' => ?_⟩
                  obtain rfl : g' = none := by
                    rcases r with e | ⟨⟩ <;> exact hg'.eq
                  simp only [Program.pure_bind]
                  split_ifs
                  · exact records_relayGitHttp request method route
                  · exact records_coldStart F request method route tenant hnamed

/-- **Everything that runs keeps to the protocol.** -/
theorem PodTask.records {p : Handler Unit} (h : PodTask p) :
    Records db₀ (fun g _ => g = none) none p := by
  cases h with
  | gitHttp F request method route peerCert =>
    exact (records_handleGitHttp F request method route peerCert).bind fun _ _ hg => hg
  | startPod image reposRoot tenantSlug =>
    exact (records_startPodCommand image reposRoot tenantSlug).bind fun _ _ hg => hg
  | stopPod tenantSlug => exact (records_stopPodCommand tenantSlug).bind fun _ _ hg => hg
  | reapIdle idleFor => exact (records_reapIdlePodsCommand idleFor).bind fun _ _ hg => hg

end Protocol

/-! ### Every clean step -/

variable {C : Crypto}

/-- A running pod is recorded, or a process that is starting it will record it. -/
structure Recording (db₀ : Db) (ls : List (Pool.Label (Program.Exchange Reply)))
    (pool : Pool (Handler Unit) World) : Prop where
  /-- The slugs are unique. -/
  slug : Table.Keyed Tenant.slug pool.state.db.tenants
  /-- The tenants keep their names. -/
  names : db₀.SameNames pool.state.db
  /-- None of them is lost. -/
  kept : ∀ t₀ ∈ db₀.tenants, ∃ t ∈ pool.state.db.tenants, t.id = t₀.id ∧ t.slug = t₀.slug
  /-- The processes keep to the protocol. -/
  records : ∀ i p, pool.threads i = some p → Records db₀ (fun g _ => g = none) (serving ls i) p
  /-- A process that has not started is starting no pod. -/
  idle : ∀ i, pool.threads i = none → serving ls i = none
  /-- A running pod is recorded, or a process is starting it. -/
  recorded : ∀ tenant ∈ pool.state.db.tenants, pool.state.Running tenant.slug →
    tenant.podRunning = true ∨ ∃ i, serving ls i = some (podName tenant.slug)

/-- How a call of a process changes the tenants and the pods. -/
inductive PodEffect (db₀ : Db) (w : World) (g : Option Str) (e : Program.Exchange Reply)
    (w' : World) : Prop
  | same (hdb : w'.db.tenants = w.db.tenants) (hpods : ∀ slug, w'.Running slug → w.Running slug)
      (hserving : servingNext g e = g ∨ ∃ slug, g = some (podName slug) ∧
        ∀ tenant ∈ w.db.tenants, tenant.slug ≠ slug)
  | runs {pod : Str} (hdb : w'.db.tenants = w.db.tenants) (hg : g = none ∨ g = some pod)
      (hpods : ∀ slug, w'.Running slug → w.Running slug ∨ podName slug = pod)
      (hserving : servingNext g e = some pod)
  | updates {tenantId : ℕ} {f : Tenant → Tenant} (hpods : w'.pods = w.pods)
      (hdb : w'.db = (w.db.updateTenant tenantId f).2) (hid : ∀ t, (f t).id = t.id)
      (hslug : ∀ t, (f t).slug = t.slug)
      (hf : (servingNext g e = g ∧ ∀ t, (f t).podRunning = t.podRunning) ∨
        ((∀ t, (f t).podRunning = true) ∧ (g = none ∨
          ∃ t ∈ db₀.tenants, t.id = tenantId ∧ g = some (podName t.slug))) ∨
        (servingNext g e = g ∧ e = ⟨.sql (.recordPodStopped tenantId), .ok ()⟩))

theorem servingNext_of_fails {c : Call} {r : Reply c} (h : Fails c r) (g : Option Str) :
    servingNext g ⟨c, r⟩ = g := by
  cases h with
  | sql q e => cases q <;> rfl
  | _ => rfl

theorem running_update {w : World} {pod slug : Str} {p : Option Pod}
    (h : World.Running { w with pods := Function.update w.pods pod p } slug) :
    w.Running slug ∨ podName slug = pod ∧ ∃ pod', p = some pod' ∧ pod'.IsRunning := by
  obtain ⟨pod', hpod', hrunning⟩ := h
  by_cases heq : podName slug = pod
  · dsimp only at hpod'
    rw [heq, Function.update_self] at hpod'
    exact .inr ⟨heq, pod', hpod', hrunning⟩
  · dsimp only at hpod'
    rw [Function.update_of_ne heq] at hpod'
    exact .inl ⟨pod', hpod', hrunning⟩

theorem updateTenant_ok {db : Db} {tenantId : ℕ} {f : Tenant → Tenant} :
    (db.updateTenant tenantId f).1 = .ok () ∨ ∃ e, (db.updateTenant tenantId f).1 = .error e := by
  unfold Db.updateTenant
  split_ifs
  · exact .inl rfl
  · exact .inr ⟨_, rfl⟩

theorem PodCalls.effect {db₀ : Db} {g : Option Str} {e : Program.Exchange Reply} {w w' : World}
    (h : PodCalls db₀ g e.1) (hexec : Exec C w e w') : PodEffect db₀ w g e w' := by
  have hquiet : ∀ {e}, servingNext g e = g → PodEffect db₀ w g e w :=
    fun heq => .same rfl (fun _ hr => hr) (.inl heq)
  cases hexec with
  | fails hfails => exact hquiet (servingNext_of_fails hfails g)
  | answers hanswer =>
    cases hanswer with
    | connect => exact hquiet rfl
    | now => exact .same rfl (fun _ hr => hr) (.inl rfl)
    | proxy => exact hquiet rfl
    | signDeviceCsr | signRejected | startPod | stopPod => exact h.elim
    | sql q =>
      cases q with
      | findTenantBySlug slug =>
        refine .same rfl (fun _ hr => hr) ?_
        dsimp only [Statement.run]
        cases hfound : w.db.findTenantBySlug slug with
        | some tenant => exact .inl rfl
        | none =>
          rcases h with rfl | hg
          · exact .inl rfl
          · exact .inr ⟨slug, hg, Table.find?_eq_none_iff.1 hfound⟩
      | findDeviceByCertSerial => exact .same rfl (fun _ hr => hr) (.inl rfl)
      | findIdleRunningTenants => exact .same rfl (fun _ hr => hr) (.inl rfl)
      | touchLastActive tenantId =>
        exact .updates rfl rfl (fun _ => rfl) (fun _ => rfl) (.inl ⟨rfl, fun _ => rfl⟩)
      | recordPodStarted tenantId =>
        exact .updates rfl rfl (fun _ => rfl) (fun _ => rfl) (.inr (.inl ⟨fun _ => rfl, h⟩))
      | recordPodStopped tenantId =>
        obtain rfl : g = none := h
        dsimp only [Statement.run, Db.recordPodStopped]
        rcases @updateTenant_ok w.db tenantId
          (fun t => { t with podRunning := false, podStartedAt := none }) with hok | ⟨e, he⟩
        · rw [hok]
          exact .updates rfl rfl (fun _ => rfl) (fun _ => rfl) (.inr (.inr ⟨rfl, rfl⟩))
        · rw [he, Db.updateTenant_error he]
          exact hquiet rfl
      | _ => exact h.elim
    | podman hruns =>
      cases hruns with
      | inspect => exact hquiet rfl
      | networkExists => exact hquiet rfl
      | networkCreate => exact .same rfl (fun _ hr => hr) (.inl rfl)
      | writeSeccompProfile => exact hquiet rfl
      | rm pod =>
        refine .same rfl (fun slug hr => ?_) (.inl rfl)
        rcases running_update hr with hr | ⟨-, pod', hnone, -⟩
        · exact hr
        · cases hnone
      | create =>
        refine .same rfl (fun slug hr => ?_) (.inl rfl)
        rcases running_update hr with hr | ⟨-, pod', hcreated, hrunning⟩
        · exact hr
        · -- a pod that was just created has no container that runs
          obtain rfl := Option.some.inj hcreated
          rcases hrunning with hrunning | hrunning <;> cases hrunning
      | runServe =>
        obtain rfl : g = none := h
        exact .runs rfl (.inl rfl) (fun slug hr => (running_update hr).imp_right And.left) rfl
      | runIndex =>
        exact .runs rfl (.inr h) (fun slug hr => (running_update hr).imp_right And.left) h

theorem PodEffect.names {db₀ : Db} {w w' : World} {g : Option Str} {e : Program.Exchange Reply}
    (h : PodEffect db₀ w g e w') : w.db.SameNames w'.db := by
  cases h with
  | same hdb | runs hdb =>
    intro t ht
    rw [hdb] at ht
    exact ⟨t, ht, rfl, rfl⟩
  | updates _ hdb hid hslug =>
    rw [hdb]
    exact Db.updateTenant_sameNames hid hslug

theorem PodEffect.exists_tenant {db₀ : Db} {w w' : World} {g : Option Str}
    {e : Program.Exchange Reply} (h : PodEffect db₀ w g e w') :
    (∀ t₀ ∈ w.db.tenants, ∃ t ∈ w'.db.tenants, t.id = t₀.id ∧ t.slug = t₀.slug) ∧
      (Table.Keyed Tenant.slug w.db.tenants → Table.Keyed Tenant.slug w'.db.tenants) := by
  cases h with
  | same hdb | runs hdb =>
    rw [hdb]
    exact ⟨fun t ht => ⟨t, ht, rfl, rfl⟩, fun hkeyed => hkeyed⟩
  | @updates tenantId f _ hdb hid hslug =>
    rw [hdb]
    unfold Db.updateTenant
    split_ifs
    · refine ⟨fun t ht => ⟨_, List.mem_map_of_mem ht, ?_⟩, fun hkeyed =>
        Table.keyed_map hkeyed fun t _ => ?_⟩
      · split_ifs
        · exact ⟨hid t, hslug t⟩
        · exact ⟨rfl, rfl⟩
      · split_ifs
        · exact hslug t
        · rfl
    · exact ⟨fun t ht => ⟨t, ht, rfl, rfl⟩, fun hkeyed => hkeyed⟩

theorem mem_updateTenant {db : Db} {tenantId : ℕ} {f : Tenant → Tenant} {t' : Tenant}
    (h : t' ∈ (db.updateTenant tenantId f).2.tenants) :
    ∃ t ∈ db.tenants, t.id = tenantId ∧ t' = f t ∨ t.id ≠ tenantId ∧ t' = t := by
  unfold Db.updateTenant at h
  split_ifs at h with hfound
  · obtain ⟨t, ht, rfl⟩ := List.mem_map.1 h
    refine ⟨t, ht, ?_⟩
    split_ifs with hid
    · exact .inl ⟨hid, rfl⟩
    · exact .inr ⟨hid, rfl⟩
  · refine ⟨t', h, .inr ⟨?_, rfl⟩⟩
    have hnone : db.findTenantById tenantId = none := by simpa using hfound
    exact Table.find?_eq_none_iff.1 hnone t' h

section Call

variable {db₀ : Db} {ls : List (Pool.Label (Program.Exchange Reply))}
  {pool : Pool (Handler Unit) World} {i : ℕ} {e : Program.Exchange Reply} {w' : World}

/-- A process that is starting a pod still is, unless it makes a call that ends it. -/
theorem serving_of_ne {j : ℕ} {pod : Str} (h : serving ls j = some pod)
    (hne : j = i → servingNext (serving ls i) e = serving ls i) :
    serving (ls ++ [.call i e]) j = some pod := by
  rw [serving_call]
  split_ifs with hij
  · rw [← hij, hne hij.symm, hij]
    exact h
  · exact h

/-- A running pod is recorded, or a process is starting it, after a call too. -/
theorem Recording.recorded_call (h : Recording db₀ ls pool)
    (heffect : PodEffect db₀ pool.state (serving ls i) e w')
    (hclean : Clean ls pool.state (.call i e)) : ∀ tenant ∈ w'.db.tenants, w'.Running tenant.slug →
      tenant.podRunning = true ∨ ∃ j, serving (ls ++ [.call i e]) j = some (podName tenant.slug) := by
  cases heffect with
  | same hdb hpods hserving =>
    intro tenant htenant hrunning
    rw [hdb] at htenant
    rcases h.recorded tenant htenant (hpods _ hrunning) with hflag | ⟨j, hj⟩
    · exact .inl hflag
    · refine .inr ⟨j, serving_of_ne hj ?_⟩
      rintro rfl
      rcases hserving with heq | ⟨slug, hg, hnone⟩
      · exact heq
      · exact absurd (podName_injective (Option.some.inj (hj.symm.trans hg))) (hnone tenant htenant)
  | @runs pod hdb hg hpods hserving =>
    intro tenant htenant hrunning
    rw [hdb] at htenant
    have hstarts : podName tenant.slug = pod →
        ∃ j, serving (ls ++ [.call i e]) j = some (podName tenant.slug) := by
      rintro rfl
      exact ⟨i, by rw [serving_call, if_pos rfl, hserving]⟩
    rcases hpods _ hrunning with hbefore | hpod
    · rcases h.recorded tenant htenant hbefore with hflag | ⟨j, hj⟩
      · exact .inl hflag
      · by_cases hji : j = i
        · rw [hji] at hj
          rcases hg with hg | hg
          · rw [hg] at hj
            cases hj
          · exact .inr (hstarts (Option.some.inj (hj.symm.trans hg)))
        · exact .inr ⟨j, serving_of_ne hj fun heq => absurd heq hji⟩
    · exact .inr (hstarts hpod)
  | @updates tenantId f hpods hdb hid hslug hf =>
    intro tenant' htenant' hrunning
    rw [hdb] at htenant'
    obtain ⟨tenant, htenant, hcases⟩ := mem_updateTenant htenant'
    have hslug' : tenant'.slug = tenant.slug := by
      rcases hcases with ⟨-, rfl⟩ | ⟨-, rfl⟩
      · exact hslug tenant
      · rfl
    have hbefore : pool.state.Running tenant.slug := by
      rw [← hslug']
      unfold World.Running at hrunning ⊢
      rwa [hpods] at hrunning
    rw [hslug']
    have hkeep : servingNext (serving ls i) e = serving ls i →
        tenant'.podRunning = tenant.podRunning → tenant'.podRunning = true ∨
          ∃ j, serving (ls ++ [.call i e]) j = some (podName tenant.slug) := by
      intro hnext hflag
      rw [hflag]
      exact (h.recorded tenant htenant hbefore).imp_right fun ⟨j, hj⟩ =>
        ⟨j, serving_of_ne hj fun _ => hnext⟩
    rcases hf with ⟨hnext, hflags⟩ | ⟨hflags, hg⟩ | ⟨hnext, rfl⟩
    · refine hkeep hnext ?_
      rcases hcases with ⟨-, rfl⟩ | ⟨-, rfl⟩
      · exact hflags tenant
      · rfl
    · -- the start is recorded: for this tenant, or for one with another pod
      rcases hcases with ⟨-, rfl⟩ | ⟨hne, rfl⟩
      · exact .inl (hflags tenant)
      · rcases h.recorded tenant' htenant hbefore with hflag | ⟨j, hj⟩
        · exact .inl hflag
        · refine .inr ⟨j, serving_of_ne hj ?_⟩
          rintro rfl
          rcases hg with hg | ⟨t₀, ht₀, rfl, hg⟩
          · rw [hg] at hj
            cases hj
          · obtain ⟨t, ht, htid, htslug⟩ := h.kept t₀ ht₀
            have hname := podName_injective (Option.some.inj (hj.symm.trans hg))
            obtain rfl := h.slug.eq_of_key_eq ht htenant (htslug.trans hname.symm)
            exact absurd htid hne
    · -- a stop is recorded: nobody runs the pod, or somebody is starting it
      rcases hcases with ⟨rfl, rfl⟩ | ⟨-, rfl⟩
      · obtain ⟨j, hj⟩ := hclean.2 tenant htenant rfl hbefore
        exact .inr ⟨j, serving_of_ne hj fun _ => hnext⟩
      · exact hkeep hnext rfl

/-- **A running pod is recorded, or a process that is starting it will record it**: every clean step
keeps this. -/
theorem Recording.step {pool' : Pool (Handler Unit) World}
    {l : Pool.Label (Program.Exchange Reply)} (h : Recording db₀ ls pool)
    (hstep : Pool.Step Program.Next (Exec C) PodTask pool l pool') (hclean : Clean ls pool.state l) :
    Recording db₀ (ls ++ [l]) pool' := by
  cases hstep with
  | @start threads w i p hfree hstart =>
    -- a process that starts is not starting a pod yet
    refine ⟨h.slug, h.names, h.kept, ?_, ?_, ?_⟩
    · intro j q hj
      rw [serving_start]
      dsimp only at hj
      by_cases hji : j = i
      · rw [hji, Function.update_self] at hj
        obtain rfl := Option.some.inj hj
        rw [hji, h.idle i hfree]
        exact hstart.records
      · rw [Function.update_of_ne hji] at hj
        exact h.records j q hj
    · intro j hj
      rw [serving_start]
      dsimp only at hj
      by_cases hji : j = i
      · rw [hji, Function.update_self] at hj
        cases hj
      · rw [Function.update_of_ne hji] at hj
        exact h.idle j hj
    · intro tenant htenant hrunning
      refine (h.recorded tenant htenant hrunning).imp_right fun ⟨j, hj⟩ => ⟨j, ?_⟩
      rw [serving_start]
      exact hj
  | @call threads w w' i p p' e hi hnext hexec =>
    have hp := h.records i p hi
    have heffect := (hp.allowed_of_next hnext).effect hexec
    obtain ⟨hexists, hkeyed⟩ := heffect.exists_tenant
    refine ⟨hkeyed h.slug, h.names.trans heffect.names, ?_, ?_, ?_, h.recorded_call heffect hclean⟩
    · intro t₀ ht₀
      obtain ⟨t, ht, hid, hslug⟩ := h.kept t₀ ht₀
      obtain ⟨t', ht', hid', hslug'⟩ := hexists t ht
      exact ⟨t', ht', hid'.trans hid, hslug'.trans hslug⟩
    · intro j q hj
      rw [serving_call]
      dsimp only at hj
      by_cases hji : j = i
      · rw [hji, Function.update_self] at hj
        obtain rfl := Option.some.inj hj
        rw [hji, if_pos rfl]
        refine (hp.step hnext ⟨rfl, hclean.1, ?_⟩).2
        -- a row that was looked up names a tenant of the tables
        rintro slug tenant rfl
        have hfound : w.db.findTenantBySlug slug = some tenant := Except.ok.inj hexec.sql_ok.1
        obtain ⟨t, ht, hid, hslug⟩ := h.names tenant (List.mem_of_find?_eq_some hfound)
        exact ⟨t, ht, hid, hslug.trans (by simpa using List.find?_some hfound)⟩
      · rw [Function.update_of_ne hji] at hj
        rw [if_neg fun heq => hji heq.symm]
        exact h.records j q hj
    · intro j hj
      rw [serving_call]
      dsimp only at hj
      by_cases hji : j = i
      · rw [hji, Function.update_self] at hj
        cases hj
      · rw [Function.update_of_ne hji] at hj
        rw [if_neg fun heq => hji heq.symm]
        exact h.idle j hj

end Call

/-! ### Clean runs -/

/-- All processes are done. -/
def Finished (pool : Pool (Handler Unit) World) : Prop :=
  ∀ i p, pool.threads i = some p → p = .pure ()

/-- **After clean steps, when all processes are done, every running pod is recorded.** -/
theorem running_recorded {w₀ : World} (hw : w₀.db.WellFormed) (hrecorded : w₀.Recorded)
    {ls ls' : List (Pool.Label (Program.Exchange Reply))} {pool : Pool (Handler Unit) World}
    (run : Trace.Run (CleanStep C) ([], ⟨fun _ => none, w₀⟩) ls (ls', pool))
    (hfinished : Finished pool) : pool.state.Recorded := by
  have h : Recording w₀.db ls' pool := by
    refine run.invariant (I := fun s => Recording w₀.db s.1 s.2) ?_ ?_
    · rintro ⟨hist, pool₁⟩ l ⟨hist', pool₂⟩ h ⟨hstep, rfl, hclean⟩
      exact h.step hstep hclean
    · exact ⟨hw.slug, .refl _, fun t ht => ⟨t, ht, rfl, rfl⟩, by simp, fun _ _ => rfl,
        fun tenant htenant hrunning => .inl (hrecorded tenant htenant hrunning)⟩
  intro tenant htenant hrunning
  rcases h.recorded tenant htenant hrunning with hflag | ⟨i, hi⟩
  · exact hflag
  · -- a process that is done is starting no pod
    have hnone : serving ls' i = none := by
      cases hthread : pool.threads i with
      | none => exact h.idle i hthread
      | some p =>
        have hrecords := h.records i p hthread
        rw [hfinished i p hthread] at hrecords
        exact hrecords
    rw [hnone] at hi
    cases hi

/-! ### A stop that fails, and a start -/

/-- A hub with a tenant whose pod is running. -/
def exampleRunning : World :=
  { db := { tenants := [⟨1, "acme".toList, false, true, some 0, 0⟩], nextTenantId := 2 }
    pods := Function.update (fun _ => none) (podName "acme".toList) (some ⟨true, true⟩)
    network := true }

theorem exampleRunning_running : exampleRunning.Running "acme".toList :=
  ⟨⟨true, true⟩, by simp [exampleRunning], .inl rfl⟩

/-- **A pod that `podman` did not remove is recorded as stopped.** -/
theorem not_recorded : exampleRunning.Recorded ∧ ∃ ls pool, Pool.Run Program.Next
    (Exec exampleCrypto) PodTask ⟨fun _ => none, exampleRunning⟩ ls pool ∧ Finished pool ∧
    ¬ pool.state.Recorded := by
  have hrun := Program.returns_eval (exec_exampleAnswer [])
    (Task (stopPodCommand podmanOrchestrator "acme".toList)) exampleRunning
  have run : Pool.Run Program.Next (Exec exampleCrypto) PodTask ⟨fun _ => none, exampleRunning⟩ _ _ :=
    .of_returns (i := 0) hrun rfl (.stopPod _)
  refine ⟨?_, _, _, run, ?_, fun hrecorded => ?_⟩
  · intro tenant htenant _
    rw [List.mem_singleton.1 htenant]
  · intro i p hp
    dsimp only at hp
    by_cases hi : i = 0
    · rw [hi, Function.update_self] at hp
      exact (Option.some.inj hp).symm
    · rw [Function.update_of_ne hi] at hp
      cases hp
  · have hflag := hrecorded ⟨1, "acme".toList, false, false, none, 0⟩ (List.mem_singleton_self _)
      exampleRunning_running
    cases hflag

/-- The answers of a hub whose container runtime works. -/
def podmanAnswer (w : World) : (c : Call) → Reply c × World
  | .podman (.inspect pod) => (.ok ((w.pods pod).map Pod.state), w)
  | .podman .networkExists => (.ok w.network, w)
  | .podman .networkCreate => (.ok (), { w with network := true })
  | .podman (.rm pod) => (.ok (), { w with pods := Function.update w.pods pod none })
  | .podman (.create pod _) =>
    match w.pods pod with
    | none => (.ok (), { w with pods := Function.update w.pods pod (some {}) })
    | some _ => (.error [], w)
  | .podman (.runServe pod _ _ _ _) =>
    match w.pods pod with
    | none => (.error [], w)
    | some p => (.ok (), { w with pods := Function.update w.pods pod (some { p with serve := true }) })
  | .podman (.writeSeccompProfile _) => (.ok (), w)
  | .podman (.runIndex pod _ _ _ _ _) =>
    match w.pods pod with
    | none => (.error [], w)
    | some p => (.ok (), { w with pods := Function.update w.pods pod (some { p with index := true }) })
  | c => exampleAnswer [] w c

theorem exec_podmanAnswer (w : World) (c : Call) :
    Exec exampleCrypto w ⟨c, (podmanAnswer w c).1⟩ (podmanAnswer w c).2 := by
  cases c with
  | podman command =>
    cases command with
    | inspect pod => exact .answers (.podman (.inspect w pod))
    | networkExists => exact .answers (.podman (.networkExists w))
    | networkCreate => exact .answers (.podman (.networkCreate w))
    | rm pod => exact .answers (.podman (.rm w pod))
    | create pod networkAlias =>
      unfold podmanAnswer
      dsimp only
      cases hpod : w.pods pod with
      | none => exact .answers (.podman (.create networkAlias hpod))
      | some p => exact .fails w (.create _ _ _)
    | runServe pod =>
      unfold podmanAnswer
      dsimp only
      cases hpod : w.pods pod with
      | none => exact .fails w (.runServe _ _ _ _ _ _)
      | some p => exact .answers (.podman (.runServe _ _ _ _ hpod))
    | writeSeccompProfile path => exact .answers (.podman (.writeSeccompProfile w path))
    | runIndex pod =>
      unfold podmanAnswer
      dsimp only
      cases hpod : w.pods pod with
      | none => exact .fails w (.runIndex _ _ _ _ _ _ _)
      | some p => exact .answers (.podman (.runIndex _ _ _ _ _ hpod))
  | connect | sql | now | signDeviceCsr | startPod | stopPod | proxy =>
    exact exec_exampleAnswer [] w _

/-- The call succeeded.  One that finds no pod, or no network, may have failed. -/
def succeeded : Program.Exchange Reply → Bool
  | ⟨.connect, .ok _⟩ => true
  | ⟨.sql _, .ok _⟩ => true
  | ⟨.podman (.inspect _), .ok (some _)⟩ => true
  | ⟨.podman .networkExists, .ok true⟩ => true
  | ⟨.podman .networkCreate, .ok _⟩ => true
  | ⟨.podman (.rm _), .ok _⟩ => true
  | ⟨.podman (.create _ _), .ok _⟩ => true
  | ⟨.podman (.runServe _ _ _ _ _), .ok _⟩ => true
  | ⟨.podman (.writeSeccompProfile _), .ok _⟩ => true
  | ⟨.podman (.runIndex _ _ _ _ _ _), .ok _⟩ => true
  | _ => false

/-- Whether a pod is running that the tables say has stopped, once the call is made. -/
def stopsRunning (w : World) : Program.Exchange Reply → Bool
  | ⟨.sql (.recordPodStopped id), _⟩ => w.db.tenants.any fun tenant => tenant.id == id &&
      (w.pods (podName tenant.slug)).any fun pod => pod.serve || pod.index
  | _ => false

/-- A check that a step is clean. -/
def isClean (ls : List (Pool.Label (Program.Exchange Reply))) (w : World) :
    Pool.Label (Program.Exchange Reply) → Bool
  | .start _ => true
  | .call i e => ((serving ls i).isNone || succeeded e) && !stopsRunning w e

theorem not_fails_of_succeeded {e : Program.Exchange Reply} (h : succeeded e = true) :
    ¬ Fails e.1 e.2 := by
  intro hfails
  obtain ⟨c, r⟩ := e
  cases hfails with
  | sql q e => cases q <;> cases h
  | _ => cases h

theorem clean_of_isClean {ls : List (Pool.Label (Program.Exchange Reply))} {w : World}
    {l : Pool.Label (Program.Exchange Reply)} (h : isClean ls w l = true) : Clean ls w l := by
  cases l with
  | start => trivial
  | call i e =>
    rw [isClean, Bool.and_eq_true, Bool.or_eq_true, Bool.not_eq_true'] at h
    refine ⟨fun hserving => ?_, fun tenant htenant heq hrunning => ?_⟩
    · refine not_fails_of_succeeded (h.1.resolve_left fun hnone => hserving ?_)
      exact Option.isNone_iff_eq_none.1 hnone
    · obtain ⟨pod, hpod, hrunning⟩ := hrunning
      have hstops : stopsRunning w e = true := by
        rw [heq, stopsRunning, List.any_eq_true]
        refine ⟨tenant, htenant, ?_⟩
        rw [hpod, Option.any_some, Bool.and_eq_true, Bool.or_eq_true, beq_self_eq_true]
        exact ⟨rfl, hrunning⟩
      rw [hstops] at h
      cases h.2

/-- A hub with two tenants, of which one has a pod that is running. -/
def exampleHub : World :=
  { exampleRunning with db := { tenants := [⟨1, "acme".toList, false, true, some 0, 0⟩,
    ⟨2, "umbrella".toList, false, false, none, 0⟩], nextTenantId := 3 } }

/-- `stop-pod` for a tenant. -/
def exampleStop (tenantSlug : Str) : Handler Unit :=
  Task (stopPodCommand podmanOrchestrator tenantSlug)

/-- `start-pod` for a tenant. -/
def exampleStart (tenantSlug : Str) : Handler Unit :=
  Task (startPodCommand podmanOrchestrator "localhost/wkp-hub".toList "/srv/wkp-hub/repos".toList
    tenantSlug)

/-- The running pod is stopped and started again, while a pod of the other tenant is not created. -/
def exampleSchedule : List (Pool.Move Reply Unit World) :=
  [.start 0 (exampleStop "acme".toList), .call 0 podmanAnswer,
    .start 1 (exampleStart "umbrella".toList), .call 1 podmanAnswer, .call 0 podmanAnswer,
    .call 0 podmanAnswer, .call 0 podmanAnswer, .start 2 (exampleStart "acme".toList)] ++
  (List.replicate 5 (.call 2 podmanAnswer) ++ [.call 1 podmanAnswer, .call 1 podmanAnswer,
    .call 1 (exampleAnswer [])] ++ List.replicate 5 (.call 2 podmanAnswer))

/-- The labels of its steps, and where they lead. -/
def examplePlayed : Option (List (Pool.Label (Program.Exchange Reply)) × Pool (Handler Unit) World) :=
  Pool.play isClean [] ⟨fun _ => none, exampleHub⟩ exampleSchedule

theorem allowed_exampleSchedule :
    ∀ m ∈ exampleSchedule, m.Allowed (Exec exampleCrypto) PodTask := by
  have hanswer : ∀ i, (Pool.Move.call i podmanAnswer).Allowed (Exec exampleCrypto) PodTask :=
    fun _ => exec_podmanAnswer
  have hfails : (Pool.Move.call 1 (exampleAnswer [])).Allowed (Exec exampleCrypto) PodTask :=
    exec_exampleAnswer []
  have hstart : ∀ i slug, (Pool.Move.start i (exampleStart slug)).Allowed (Exec exampleCrypto)
    PodTask := fun _ _ => .startPod _ _ _
  have hstop : ∀ i slug, (Pool.Move.start i (exampleStop slug)).Allowed (Exec exampleCrypto)
    PodTask := fun _ _ => .stopPod _
  simp [exampleSchedule, hanswer, hstart, hfails, hstop]

/-- In the end the pod is running, and recorded. -/
theorem recorded_exampleSchedule : ∃ ls pool, examplePlayed = some (ls, pool) ∧
    pool.state.Running "acme".toList ∧ pool.state.Recorded := by
  have hdone : examplePlayed.map (fun s => (s.2.threads 0, s.2.threads 1, s.2.threads 2,
      s.2.state.pods (podName "acme".toList))) =
        some (some (.pure ()), some (.pure ()), some (.pure ()), some ⟨true, true⟩) := rfl
  obtain ⟨⟨ls, pool⟩, hplayed, hdone⟩ := Option.map_eq_some_iff.1 hdone
  simp only [Prod.mk.injEq] at hdone
  obtain ⟨h₀, h₁, h₂, hpod⟩ := hdone
  obtain ⟨ls₁, run⟩ := Pool.run_of_play allowed_exampleSchedule hplayed
  have hclean : Trace.Run (CleanStep exampleCrypto) ([], ⟨fun _ => none, exampleHub⟩) (ls₁.map id)
      (ls, pool) :=
    run.map id fun _ _ _ h => ⟨h.1, h.2.1, clean_of_isClean h.2.2⟩
  refine ⟨ls, pool, hplayed, ⟨_, hpod, .inl rfl⟩, running_recorded ?_ ?_ hclean fun i p hp => ?_⟩
  · constructor <;> simp [exampleHub, Table.Keyed]
  · rintro tenant htenant ⟨pod, hpod, -⟩
    rcases List.mem_cons.1 htenant with rfl | htenant
    · rfl
    · obtain rfl := List.mem_singleton.1 htenant
      cases hpod
  · have hlast : pool.threads i = none ∨ pool.threads i = some (.pure ()) := by
      rcases i with _ | _ | _ | i
      · exact .inr h₀
      · exact .inr h₁
      · exact .inr h₂
      · have hthreads : ∀ m ∈ exampleSchedule, m.thread < 3 := by decide
        exact .inl (Pool.threads_play hplayed fun m hm => by have := hthreads m hm; omega)
    rcases hlast with hnone | hpure
    · rw [hnone] at hp
      cases hp
    · exact Option.some.inj (hp.symm.trans hpure)

end Hub

end Wkp
