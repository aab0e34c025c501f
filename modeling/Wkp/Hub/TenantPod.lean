import Wkp.Hub.Calls
import Wkp.Hub.Storage

/-!
# The pods of the tenants

* `Hub.PodOrchestrator` : how a pod is started and stopped.
* `Hub.podmanOrchestrator` : the orchestrator that runs `podman`, command by command.
* `Hub.reapIdle` : one sweep over the idle tenants.
* `Hub.startPodCommand`, `Hub.stopPodCommand`, `Hub.reapIdlePodsCommand` : the commands of an
  administrator.
-/

namespace Wkp

open Rust

namespace Hub

/-- `PodOrchestrator`. -/
structure PodOrchestrator where
  /-- Start the pod of a tenant, unless it is running. -/
  startPod (image reposRoot tenantSlug : Str) : Handler (Except Str Unit)
  /-- Tear the pod of a tenant down. -/
  stopPod (tenantSlug : Str) : Handler (Except Str Unit)

/-! ### Names -/

/-- `SERVE_PORT`. -/
def servePort : ℕ := 8080

/-- `pod_name`. -/
def podName (tenantSlug : Str) : Str := "wkp-tenant-".toList ++ tenantSlug

/-- `serve_container_name`. -/
def serveContainerName (tenantSlug : Str) : Str := podName tenantSlug ++ "-serve".toList

/-- `index_container_name`. -/
def indexContainerName (tenantSlug : Str) : Str := podName tenantSlug ++ "-index".toList

/-- Where `ensure_seccomp_profile` writes the profile. -/
def seccompProfilePath (reposRoot : Str) : Str :=
  Path.joinStr reposRoot ".wkp-hub-seccomp-no-network.json".toList

/-- `repo_mount_arg`. -/
def repoMountArg (reposRoot tenantSlug : Str) : Str :=
  tenantStorageDir reposRoot tenantSlug ++ ":/srv/wkp-hub/repos/".toList ++ tenantSlug ++
    ":Z".toList

theorem podName_injective {slug slug' : Str} (h : podName slug = podName slug') : slug = slug' :=
  List.append_cancel_left h

/-! ### Commands -/

namespace Podman

/-- `podman pod inspect`: the state of the pod, if there is one. -/
def inspect (pod : Str) : Handler (Except Str (Option Str)) :=
  Program.perform (Call.podman (.inspect pod))

/-- `podman network exists`. -/
def networkExists : Handler (Except Str Bool) := Program.perform (Call.podman .networkExists)

/-- `podman network create`. -/
def networkCreate : Handler (Except Str Unit) := Program.perform (Call.podman .networkCreate)

/-- `podman pod rm -f`. -/
def rm (pod : Str) : Handler (Except Str Unit) := Program.perform (Call.podman (.rm pod))

/-- `podman pod create`. -/
def create (pod networkAlias : Str) : Handler (Except Str Unit) :=
  Program.perform (Call.podman (.create pod networkAlias))

/-- `podman run` of the serving container. -/
def runServe (pod container mount image tenantSlug : Str) : Handler (Except Str Unit) :=
  Program.perform (Call.podman (.runServe pod container mount image tenantSlug))

/-- The write of `ensure_seccomp_profile`. -/
def writeSeccompProfile (path : Str) : Handler (Except Str Unit) :=
  Program.perform (Call.podman (.writeSeccompProfile path))

/-- `podman run` of the indexing container. -/
def runIndex (pod container seccomp mount image tenantSlug : Str) : Handler (Except Str Unit) :=
  Program.perform (Call.podman (.runIndex pod container seccomp mount image tenantSlug))

/-! ### Starting and stopping -/

/-- `ensure_network`. -/
def ensureNetwork : Handler (Except Str Unit) := do
  match ← networkExists with
  | .error e => pure (.error e)
  | .ok true => pure (.ok ())
  | .ok false => networkCreate

/-- `pod_is_running`. -/
def podIsRunning (pod : Str) : Handler (Except Str Bool) := do
  match ← inspect pod with
  | .error e => pure (.error e)
  | .ok none => pure (.ok false)
  | .ok (some state) => pure (.ok (trim state = "Running".toList))

/-- The end of `start_pod`: the indexing container. -/
def startIndex (image reposRoot tenantSlug : Str) : Handler (Except Str Unit) := do
  match ← writeSeccompProfile (seccompProfilePath reposRoot) with
  | .error e => pure (.error e)
  | .ok () =>
    runIndex (podName tenantSlug) (indexContainerName tenantSlug) (seccompProfilePath reposRoot)
      (repoMountArg reposRoot tenantSlug) image tenantSlug

/-- `start_pod` from the serving container on. -/
def startServe (image reposRoot tenantSlug : Str) : Handler (Except Str Unit) := do
  match ← runServe (podName tenantSlug) (serveContainerName tenantSlug)
      (repoMountArg reposRoot tenantSlug) image tenantSlug with
  | .error e => pure (.error e)
  | .ok () => startIndex image reposRoot tenantSlug

/-- `start_pod` from the removal of an earlier pod on.  Whether that succeeds is ignored. -/
def recreatePod (image reposRoot tenantSlug : Str) : Handler (Except Str Unit) := do
  let _ ← rm (podName tenantSlug)
  match ← create (podName tenantSlug) tenantSlug with
  | .error e => pure (.error e)
  | .ok () => startServe image reposRoot tenantSlug

/-- `start_pod` where the pod is not running. -/
def startStopped (image reposRoot tenantSlug : Str) : Handler (Except Str Unit) := do
  match ← ensureNetwork with
  | .error e => pure (.error e)
  | .ok () => recreatePod image reposRoot tenantSlug

/-- `start_pod`. -/
def startPod (image reposRoot tenantSlug : Str) : Handler (Except Str Unit) := do
  match ← podIsRunning (podName tenantSlug) with
  | .error e => pure (.error e)
  | .ok true => pure (.ok ())
  | .ok false => startStopped image reposRoot tenantSlug

/-- `stop_pod`.  Whether the removal succeeds is ignored. -/
def stopPod (tenantSlug : Str) : Handler (Except Str Unit) := do
  let _ ← rm (podName tenantSlug)
  pure (.ok ())

end Podman

/-- `PodmanOrchestrator`. -/
def podmanOrchestrator : PodOrchestrator := ⟨Podman.startPod, Podman.stopPod⟩

/-! ### Sweeps and commands -/

section Orchestrator

variable (orchestrator : PodOrchestrator)

/-- The loop of `reap_idle`: a pod that does not stop, or that is not recorded, is skipped. -/
def reapTenants : List Tenant → List Str → Handler (Except Str (List Str))
  | [], reaped => pure (.ok reaped)
  | tenant :: tenants, reaped => do
    match ← orchestrator.stopPod tenant.slug with
    | .error _ => reapTenants tenants reaped
    | .ok () =>
      match ← sql (.recordPodStopped tenant.id) with
      | .error _ => reapTenants tenants reaped
      | .ok () => reapTenants tenants (reaped ++ [tenant.slug])

/-- `reap_idle`. -/
def reapIdle (idleFor : ℕ) : Handler (Except Str (List Str)) := do
  let now ← nowUtc
  match ← sql (.findIdleRunningTenants (now - idleFor)) with
  | .error e => pure (.error e.toStr)
  | .ok tenants => reapTenants orchestrator tenants []

/-- `wkp-hub reap-idle-pods`. -/
def reapIdlePodsCommand (idleFor : ℕ) : Handler (Except Str (List Str)) := do
  match ← connect with
  | .error e => pure (.error e.toStr)
  | .ok () => reapIdle orchestrator idleFor

/-- The end of `start-pod` and `stop-pod`: the tenant is found, and the pod recorded. -/
def recordCommand (record : ℕ → Handler (Except Error Unit)) (tenantSlug : Str) :
    Handler (Except Str Unit) := do
  match ← sql (.findTenantBySlug tenantSlug) with
  | .error e => pure (.error e.toStr)
  | .ok none => pure (.error ("tenant ".toList ++ tenantSlug ++ " not found".toList))
  | .ok (some tenant) =>
    match ← record tenant.id with
    | .error e => pure (.error e.toStr)
    | .ok () => pure (.ok ())

/-- `start-pod` and `stop-pod` from the connection on. -/
def connectCommand (record : ℕ → Handler (Except Error Unit)) (tenantSlug : Str) :
    Handler (Except Str Unit) := do
  match ← connect with
  | .error e => pure (.error e.toStr)
  | .ok () => recordCommand record tenantSlug

/-- `wkp-hub start-pod`. -/
def startPodCommand (image reposRoot tenantSlug : Str) : Handler (Except Str Unit) := do
  match ← orchestrator.startPod image reposRoot tenantSlug with
  | .error e => pure (.error e)
  | .ok () => connectCommand (fun id => sql (.recordPodStarted id)) tenantSlug

/-- `wkp-hub stop-pod`. -/
def stopPodCommand (tenantSlug : Str) : Handler (Except Str Unit) := do
  match ← orchestrator.stopPod tenantSlug with
  | .error e => pure (.error e)
  | .ok () => connectCommand (fun id => sql (.recordPodStopped id)) tenantSlug

end Orchestrator

end Hub

end Wkp
