import Wkp.Hub.Recorded

/-!
# Complete pods

Calls of `start_pod` and `stop_pod`, one after another, for any tenants, where any command of the
container runtime may fail.

* `Hub.PodCall`, `Hub.CallStep` : the calls, each with the commands that it ran.
* `Hub.halfStarted` : the serving container of a tenant was run and the indexing container was not.
* `Hub.Synced` : the pods are what the commands say; `Hub.Synced.callStep`.
* `Hub.complete_iff` : **a started pod is complete unless it was half-started before.**
-/

namespace Wkp

open Rust

namespace Hub

/-! ### Calls -/

/-- A call to the orchestrator. -/
inductive PodCall
  | start (image reposRoot tenantSlug : Str)
  | stop (tenantSlug : Str)

/-- What the call runs. -/
def PodCall.program : PodCall → Handler (Except Str Unit)
  | start image reposRoot tenantSlug => podmanOrchestrator.startPod image reposRoot tenantSlug
  | stop tenantSlug => podmanOrchestrator.stopPod tenantSlug

/-- A call, the commands that it ran with their outcomes, and what it returned. -/
structure Called where
  /-- The call. -/
  call : PodCall
  /-- The commands. -/
  commands : List (Program.Exchange Reply)
  /-- What it returned. -/
  result : Except Str Unit

variable (C : Crypto)

/-- A call from its first command to its return. -/
def CallStep (w : World) (l : Called) (w' : World) : Prop :=
  Program.Returns (Exec C) l.call.program w l.commands l.result w'

/-- The pod of the tenant has both of its containers. -/
def World.Complete (w : World) (tenantSlug : Str) : Prop :=
  w.pods (podName tenantSlug) = some ⟨true, true⟩

/-! ### Half-started pods -/

/-- After a command: the serving container was run, and the indexing container was not. -/
def halfNext (tenantSlug : Str) (half : Bool) : Program.Exchange Reply → Bool
  | ⟨.podman (.runServe pod _ _ _ _), .ok ()⟩ => if pod = podName tenantSlug then true else half
  | ⟨.podman (.runIndex pod _ _ _ _ _), .ok ()⟩ => if pod = podName tenantSlug then false else half
  | ⟨.podman (.rm pod), .ok ()⟩ => if pod = podName tenantSlug then false else half
  | _ => half

/-- Among the commands of the calls, a `start_pod` of the tenant ran the serving container and then
failed, and the pod has not been removed since. -/
def halfStarted (tenantSlug : Str) (ls : List Called) : Bool :=
  (ls.flatMap Called.commands).foldl (halfNext tenantSlug) false

/-- The pod is what the commands say. -/
structure Sync (half : Bool) (pod : Option Pod) : Prop where
  /-- It is half-started if they say so. -/
  half : half = true ↔ pod = some ⟨true, false⟩
  /-- It never has the indexing container alone. -/
  serve : pod ≠ some ⟨false, true⟩

/-- All pods are what the commands say. -/
def Synced (hist : List (Program.Exchange Reply)) (w : World) : Prop :=
  ∀ slug, Sync (hist.foldl (halfNext slug) false) (w.pods (podName slug))

/-! ### The protocol of a call -/

/-- The pod after a command. -/
def podNext (pod : Option Pod) : Program.Exchange Reply → Option Pod
  | ⟨.podman (.rm _), .ok ()⟩ => none
  | ⟨.podman (.create _ _), .ok ()⟩ => some {}
  | ⟨.podman (.runServe _ _ _ _ _), .ok ()⟩ => pod.map fun p => { p with serve := true }
  | ⟨.podman (.runIndex _ _ _ _ _ _), .ok ()⟩ => pod.map fun p => { p with index := true }
  | _ => pod

/-- The commands of a call for the tenant: the containers are run one after the other in a fresh
pod. -/
def CallsFor (tenantSlug : Str) (pod : Option Pod) : Call → Prop
  | .podman (.inspect name) | .podman (.rm name) | .podman (.create name _) =>
    name = podName tenantSlug
  | .podman .networkExists | .podman .networkCreate | .podman (.writeSeccompProfile _) => True
  | .podman (.runServe name _ _ _ _) => name = podName tenantSlug ∧ pod = some {}
  | .podman (.runIndex name _ _ _ _ _) => name = podName tenantSlug ∧ pod = some ⟨true, false⟩
  | _ => False

/-- The program runs the commands of a call for the tenant. -/
abbrev RunsFor {α : Type} (tenantSlug : Str) (post : Option Pod → α → Prop) (pod : Option Pod)
    (p : Handler α) : Prop :=
  p.Follows (CallsFor tenantSlug) (fun pod e pod' => pod' = podNext pod e) post pod

/-- What a start from a fresh pod leaves, if it succeeds. -/
def BothRun (pod : Option Pod) : Except Str Unit → Prop
  | .ok () => pod = some ⟨true, true⟩
  | .error _ => True

namespace Podman

variable (image reposRoot tenantSlug : Str) (pod : Option Pod)

theorem runsFor_startIndex :
    RunsFor tenantSlug BothRun (some ⟨true, false⟩) (startIndex image reposRoot tenantSlug) := by
  refine ⟨trivial, fun r pod' hpod => ?_⟩
  rcases r with e | ⟨⟩
  · trivial
  · obtain rfl := hpod
    refine ⟨⟨rfl, rfl⟩, fun r pod'' hpod => ?_⟩
    rcases r with e | ⟨⟩
    · trivial
    · exact hpod

theorem runsFor_startServe :
    RunsFor tenantSlug BothRun (some {}) (startServe image reposRoot tenantSlug) := by
  refine ⟨⟨rfl, rfl⟩, fun r pod' hpod => ?_⟩
  rcases r with e | ⟨⟩
  · trivial
  · obtain rfl := hpod
    exact runsFor_startIndex image reposRoot tenantSlug

theorem runsFor_recreatePod :
    RunsFor tenantSlug BothRun pod (recreatePod image reposRoot tenantSlug) := by
  refine ⟨rfl, fun r pod' _ => ⟨rfl, fun r pod'' hpod => ?_⟩⟩
  rcases r with e | ⟨⟩
  · trivial
  · obtain rfl := hpod
    exact runsFor_startServe image reposRoot tenantSlug

theorem runsFor_ensureNetwork : RunsFor tenantSlug (fun _ _ => True) pod ensureNetwork := by
  refine ⟨trivial, fun r pod' _ => ?_⟩
  rcases r with e | _ | _
  · trivial
  · exact ⟨trivial, fun r pod'' _ => trivial⟩
  · trivial

theorem runsFor_startStopped :
    RunsFor tenantSlug BothRun pod (startStopped image reposRoot tenantSlug) := by
  refine (runsFor_ensureNetwork tenantSlug pod).bind fun pod r _ => ?_
  rcases r with e | ⟨⟩
  · trivial
  · exact runsFor_recreatePod image reposRoot tenantSlug pod

/-- `start_pod` once the pod has been inspected. -/
def startInspected : Except Str (Option Str) → Handler (Except Str Unit)
  | .error e => .pure (.error e)
  | .ok none => startStopped image reposRoot tenantSlug
  | .ok (some state) =>
    if trim state = "Running".toList then .pure (.ok ())
    else startStopped image reposRoot tenantSlug

theorem startPod_eq : startPod image reposRoot tenantSlug =
    .call (.podman (.inspect (podName tenantSlug)))
      (startInspected image reposRoot tenantSlug) := by
  refine congrArg (Program.call _) (funext fun r => ?_)
  rcases r with e | _ | state
  · rfl
  · rfl
  · change (Program.pure (Except.ok (decide (trim state = "Running".toList))) :
      Handler (Except Str Bool)).bind _ = _
    rw [startInspected]
    by_cases hrunning : trim state = "Running".toList
    · rw [if_pos hrunning, decide_eq_true hrunning]
      rfl
    · rw [if_neg hrunning, decide_eq_false hrunning]
      rfl

theorem runsFor_startPod :
    RunsFor tenantSlug (fun _ _ => True) pod (startPod image reposRoot tenantSlug) := by
  have hrest := (runsFor_startStopped image reposRoot tenantSlug pod).mono fun _ _ _ => trivial
  rw [startPod_eq]
  refine ⟨rfl, fun r pod' hpod => ?_⟩
  obtain rfl : pod' = pod := hpod
  rcases r with e | _ | state
  · trivial
  · exact hrest
  · rw [startInspected]
    split_ifs
    · trivial
    · exact hrest

theorem runsFor_stopPod : RunsFor tenantSlug (fun _ _ => True) pod (stopPod tenantSlug) :=
  ⟨rfl, fun _ _ _ => trivial⟩

end Podman

theorem PodCall.runsFor (call : PodCall) :
    ∃ slug, ∀ pod, RunsFor slug (fun _ _ => True) pod call.program := by
  cases call with
  | start image reposRoot slug => exact ⟨slug, Podman.runsFor_startPod image reposRoot slug⟩
  | stop slug => exact ⟨slug, Podman.runsFor_stopPod slug⟩

/-! ### What a command does -/

theorem halfNext_of_fails {e : Program.Exchange Reply} (h : Fails e.1 e.2) (slug : Str)
    (half : Bool) : halfNext slug half e = half := by
  obtain ⟨c, r⟩ := e
  cases h <;> rfl

theorem podNext_of_fails {e : Program.Exchange Reply} (h : Fails e.1 e.2) (pod : Option Pod) :
    podNext pod e = pod := by
  obtain ⟨c, r⟩ := e
  cases h <;> rfl

section Synced

variable {C} {hist : List (Program.Exchange Reply)} {w w' : World}

theorem Synced.keep (h : Synced hist w) {e : Program.Exchange Reply}
    (hhalf : ∀ slug half, halfNext slug half e = half) (hpods : w'.pods = w.pods) :
    Synced (hist ++ [e]) w' := by
  intro slug
  rw [List.foldl_append, List.foldl_cons, List.foldl_nil, hhalf, hpods]
  exact h slug

theorem Synced.update (h : Synced hist w) {slug : Str} {e : Program.Exchange Reply}
    {pod : Option Pod} (hother : ∀ slug' half, slug' ≠ slug → halfNext slug' half e = half)
    (hpod : Sync (halfNext slug (hist.foldl (halfNext slug) false) e) pod) :
    Synced (hist ++ [e]) { w with pods := Function.update w.pods (podName slug) pod } := by
  intro slug'
  rw [List.foldl_append, List.foldl_cons, List.foldl_nil]
  dsimp only
  by_cases hslug : slug' = slug
  · rw [hslug, Function.update_self]
    exact hpod
  · rw [hother slug' _ hslug, Function.update_of_ne fun heq => hslug (podName_injective heq)]
    exact h slug'

/-- The pod of the tenant is the given one, and all pods are what the commands say. -/
def PodIs (slug : Str) (pod : Option Pod) (hist : List (Program.Exchange Reply)) (w : World) :
    Prop :=
  w.pods (podName slug) = pod ∧ Synced hist w

theorem PodIs.exec {slug : Str} {pod : Option Pod} {e : Program.Exchange Reply}
    (h : PodIs slug pod hist w) (hcall : CallsFor slug pod e.1) (hexec : Exec C w e w') :
    PodIs slug (podNext pod e) (hist ++ [e]) w' := by
  obtain ⟨rfl, hsync⟩ := h
  -- different tenants have pods of different names
  have hne : ∀ {slug'}, slug' ≠ slug → podName slug ≠ podName slug' := fun h heq =>
    h (podName_injective heq).symm
  cases hexec with
  | fails hfails =>
    rw [podNext_of_fails hfails]
    exact ⟨rfl, hsync.keep (fun slug half => halfNext_of_fails hfails slug half) rfl⟩
  | answers hanswers =>
    cases hanswers with
    | podman hruns =>
      cases hruns with
      | inspect | networkExists | networkCreate | writeSeccompProfile =>
        exact ⟨rfl, hsync.keep (fun _ _ => rfl) rfl⟩
      | rm =>
        obtain rfl : _ = podName slug := hcall
        refine ⟨Function.update_self _ _ _, hsync.update (fun slug' half hslug => ?_) ?_⟩
        · exact if_neg (hne hslug)
        · rw [halfNext, if_pos rfl]
          exact ⟨by simp, by simp⟩
      | create networkAlias hnone =>
        obtain rfl : _ = podName slug := hcall
        refine ⟨Function.update_self _ _ _, hsync.update (fun slug' half hslug => rfl) ?_⟩
        have hhalf := (hsync slug).half
        rw [hnone] at hhalf
        show Sync (hist.foldl (halfNext slug) false) (some {})
        exact ⟨by rw [hhalf]; simp, by simp⟩
      | runServe container mount image tenantSlug hpod =>
        obtain ⟨rfl, hfresh⟩ := hcall
        obtain rfl := Option.some.inj (hpod.symm.trans hfresh)
        rw [hfresh]
        refine ⟨Function.update_self _ _ _, hsync.update (fun slug' half hslug => ?_) ?_⟩
        · exact if_neg (hne hslug)
        · rw [halfNext, if_pos rfl]
          exact ⟨by simp, by simp⟩
      | runIndex container seccomp mount image tenantSlug hpod =>
        obtain ⟨rfl, hserving⟩ := hcall
        obtain rfl := Option.some.inj (hpod.symm.trans hserving)
        rw [hserving]
        refine ⟨Function.update_self _ _ _, hsync.update (fun slug' half hslug => ?_) ?_⟩
        · exact if_neg (hne hslug)
        · rw [halfNext, if_pos rfl]
          exact ⟨by simp, by simp⟩
    | _ => cases hcall

theorem PodIs.of_returns {α : Type} {slug : Str} {pod : Option Pod} {post : Option Pod → α → Prop}
    {p : Handler α} {es : List (Program.Exchange Reply)} {a : α} (h : PodIs slug pod hist w)
    (hp : RunsFor slug post pod p) (run : Program.Returns (Exec C) p w es a w') :
    ∃ pod', post pod' a ∧ PodIs slug pod' (hist ++ es) w' := by
  refine Program.Follows.of_returns ?_ hp h run
  exact fun pod hist w e w' hI hcall hexec => ⟨_, rfl, hI.exec hcall hexec⟩

/-- **A call.**  Whatever fails, the pods are what the commands say. -/
theorem Synced.callStep {l : Called} (h : Synced hist w) (hstep : CallStep C w l w') :
    Synced (hist ++ l.commands) w' := by
  obtain ⟨slug, hruns⟩ := l.call.runsFor
  have hpod : PodIs slug (w.pods (podName slug)) hist w := ⟨rfl, h⟩
  obtain ⟨pod, -, hpod'⟩ := hpod.of_returns (hruns _) hstep
  exact hpod'.2

theorem synced_of_run {w₀ : World} (hw : ∀ slug, w₀.pods (podName slug) = none) {ls : List Called}
    (run : Trace.Run (CallStep C) w₀ ls w) : Synced (ls.flatMap Called.commands) w := by
  refine run.history (I := fun ls w => Synced (ls.flatMap Called.commands) w) ?_ ?_
  · intro slug
    rw [hw slug]
    exact ⟨by simp, by simp⟩
  · intro ls w l w' _ hsync hstep
    rw [List.flatMap_append, List.flatMap_singleton]
    exact hsync.callStep hstep

theorem complete_of_startStopped {image reposRoot slug : Str} {es : List (Program.Exchange Reply)}
    (h : Synced hist w) (run : Program.Returns (Exec C)
      (Podman.startStopped image reposRoot slug) w es (.ok ()) w') : w'.Complete slug := by
  have hpod : PodIs slug (w.pods (podName slug)) hist w := ⟨rfl, h⟩
  obtain ⟨pod, hboth, hpod'⟩ :=
    hpod.of_returns (Podman.runsFor_startStopped image reposRoot slug _) run
  exact hpod'.1.trans hboth

theorem Exec.inspect {name : Str} {r : Except Str (Option Str)}
    (h : Exec C w ⟨.podman (.inspect name), r⟩ w') : w' = w ∧
      ∀ state, r = .ok (some state) → (w.pods name).map Pod.state = some state := by
  cases h with
  | fails hfails =>
    refine ⟨rfl, fun state hr => ?_⟩
    subst hr
    cases hfails
  | answers hanswers =>
    cases hanswers with
    | podman hruns =>
      cases hruns with
      | inspect =>
        exact ⟨rfl, fun state hr => Except.ok.inj hr⟩

end Synced

/-! ### What a start leaves -/

theorem trim_state_eq_running_iff (pod : Pod) :
    trim pod.state = "Running".toList ↔ pod.serve = true ∨ pod.index = true := by
  rcases pod with ⟨_ | _, _ | _⟩ <;> decide

variable {C}

/-- **A started pod is complete**, after any calls of which any commands failed, exactly when it was
not half-started before, or when the inspection itself failed, so that the pod was made anew. -/
theorem complete_iff {w₀ w w' : World} (hw : ∀ slug, w₀.pods (podName slug) = none)
    {ls : List Called} (run : Trace.Run (CallStep C) w₀ ls w) {image reposRoot slug : Str}
    {es : List (Program.Exchange Reply)}
    (hstep : CallStep C w ⟨.start image reposRoot slug, es, .ok ()⟩ w') :
    w'.Complete slug ↔ (halfStarted slug ls = false ∨
      (⟨.podman (.inspect (podName slug)), .ok none⟩ : Program.Exchange Reply) ∈ es) := by
  have hsync := synced_of_run hw run
  have hhalf := (hsync slug).half
  have hstart : Program.Returns (Exec C) (Podman.startPod image reposRoot slug) w es (.ok ()) w' :=
    hstep
  rw [Podman.startPod_eq, Program.returns_call] at hstart
  obtain ⟨r, w₁, es, rfl, hinspect, hrest⟩ := hstart
  obtain ⟨rfl, hstate⟩ := hinspect.inspect
  rcases r with e | _ | state
  · obtain ⟨-, hr, -⟩ := Program.returns_pure.1 hrest
    cases hr
  · exact iff_of_true (complete_of_startStopped hsync hrest) (.inr List.mem_cons_self)
  · rw [Podman.startInspected] at hrest
    obtain ⟨pod, hpod, rfl⟩ := Option.map_eq_some_iff.1 (hstate state rfl)
    have hrunning := trim_state_eq_running_iff pod
    split_ifs at hrest with hstate'
    · -- the early exit: the pod has the containers that it had
      obtain ⟨rfl, -, rfl⟩ := Program.returns_pure.1 hrest
      rw [or_iff_left (by simp), World.Complete, hpod]
      have hserve := (hsync slug).serve
      rw [hpod] at hhalf hserve
      rw [hrunning] at hstate'
      rw [halfStarted, ← Bool.not_eq_true, hhalf]
      rcases pod with ⟨_ | _, _ | _⟩ <;> simp_all
    · refine iff_of_true (complete_of_startStopped hsync hrest) (.inl ?_)
      rw [hpod] at hhalf
      rw [halfStarted, ← Bool.not_eq_true, hhalf]
      rintro ⟨⟩
      exact hstate' (hrunning.2 (.inl rfl))

/-! ### A start whose indexing container does not run -/

/-- The answers of a container runtime that cannot run the indexing container. -/
def noIndexAnswer (w : World) : (c : Call) → Reply c × World
  | .podman (.runIndex _ _ _ _ _ _) => (.error [], w)
  | c => podmanAnswer w c

theorem exec_noIndexAnswer (w : World) (c : Call) :
    Exec exampleCrypto w ⟨c, (noIndexAnswer w c).1⟩ (noIndexAnswer w c).2 := by
  cases c with
  | podman command =>
    cases command with
    | runIndex => exact .fails w (.runIndex _ _ _ _ _ _ _)
    | _ => exact exec_podmanAnswer w _
  | _ => exact exec_podmanAnswer w _

/-- The start of the pod of a tenant. -/
def examplePodStart : PodCall :=
  .start "localhost/wkp-hub".toList "/srv/wkp-hub/repos".toList "acme".toList

/-- The start where the indexing container does not run. -/
def exampleHalf : List (Program.Exchange Reply) × Except Str Unit × World :=
  examplePodStart.program.eval noIndexAnswer exampleWorld

/-- The next start. -/
def exampleNext : List (Program.Exchange Reply) × Except Str Unit × World :=
  examplePodStart.program.eval podmanAnswer exampleHalf.2.2

theorem callStep_exampleHalf : CallStep exampleCrypto exampleWorld
    ⟨examplePodStart, exampleHalf.1, exampleHalf.2.1⟩ exampleHalf.2.2 :=
  Program.returns_eval exec_noIndexAnswer examplePodStart.program exampleWorld

/-- The stop of the half-started pod. -/
def examplePodStopped : List (Program.Exchange Reply) × Except Str Unit × World :=
  (PodCall.stop "acme".toList).program.eval podmanAnswer exampleHalf.2.2

/-- The start of the pod of another tenant. -/
def exampleOther : PodCall :=
  .start "localhost/wkp-hub".toList "/srv/wkp-hub/repos".toList "umbrella".toList

/-- That start once the half-started pod is stopped. -/
def exampleOtherStarted : List (Program.Exchange Reply) × Except Str Unit × World :=
  exampleOther.program.eval podmanAnswer examplePodStopped.2.2

/-- The start after both. -/
def exampleStarted : List (Program.Exchange Reply) × Except Str Unit × World :=
  examplePodStart.program.eval podmanAnswer exampleOtherStarted.2.2

/-- A start whose indexing container does not run, a stop, a start for another tenant, and a start. -/
theorem complete_iff_exampleStarted : exampleHalf.2.2.pods (podName "acme".toList) =
    some ⟨true, false⟩ ∧ exampleStarted.2.2.Complete "acme".toList := by
  have hstop : CallStep exampleCrypto exampleHalf.2.2
      ⟨.stop "acme".toList, examplePodStopped.1, examplePodStopped.2.1⟩ examplePodStopped.2.2 :=
    Program.returns_eval exec_podmanAnswer (PodCall.stop "acme".toList).program exampleHalf.2.2
  have hother : CallStep exampleCrypto examplePodStopped.2.2
      ⟨exampleOther, exampleOtherStarted.1, exampleOtherStarted.2.1⟩ exampleOtherStarted.2.2 :=
    Program.returns_eval exec_podmanAnswer exampleOther.program examplePodStopped.2.2
  have hstart : CallStep exampleCrypto exampleOtherStarted.2.2
      ⟨examplePodStart, exampleStarted.1, exampleStarted.2.1⟩ exampleStarted.2.2 :=
    Program.returns_eval exec_podmanAnswer examplePodStart.program exampleOtherStarted.2.2
  exact ⟨rfl, (complete_iff (fun _ => rfl)
    (.cons callStep_exampleHalf (.cons hstop (.single hother))) hstart).2 (.inl rfl)⟩

/-- **A half-started pod is taken for a started one.** -/
theorem not_complete : ∃ ls w es w', (∀ slug, exampleWorld.pods (podName slug) = none) ∧
    Trace.Run (CallStep exampleCrypto) exampleWorld ls w ∧
    CallStep exampleCrypto w ⟨examplePodStart, es, .ok ()⟩ w' ∧ ¬ w'.Complete "acme".toList := by
  have hnext : CallStep exampleCrypto exampleHalf.2.2
      ⟨examplePodStart, exampleNext.1, exampleNext.2.1⟩ exampleNext.2.2 :=
    Program.returns_eval exec_podmanAnswer examplePodStart.program exampleHalf.2.2
  have hok : exampleNext.2.1 = .ok () := by rfl
  have hpod : exampleNext.2.2.pods (podName "acme".toList) = some ⟨true, false⟩ := by rfl
  rw [hok] at hnext
  refine ⟨_, _, _, _, fun _ => rfl, .single callStep_exampleHalf, hnext, ?_⟩
  rw [World.Complete, hpod]
  decide

end Hub

end Wkp
