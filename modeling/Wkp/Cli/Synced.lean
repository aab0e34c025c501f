import Mathlib.Order.CompletePartialOrder
import Wkp.Cli.RunSync
import Wkp.Lib.Replicas

/-!
# Devices in step

Every device writes its own branch only, and all others see copies of it.  The commands of the devices
are steps of values with one writer each, in any order.

* `Cli.World.replicas` : the branches of the devices as such values.
* `Cli.Simulated` : a step of the world that is a step of these values.
* `Cli.Exec.simulates` : **a command of a device that pushes its own branch only is a step of the
  values.**
-/

namespace Wkp

open Rust Git

namespace Cli

/-! ### What a command can do -/

section Answer

variable {e : Choices} {s : Clone × Refs}

theorem exists_exec_mergeBranch (F : Filters) (driver : Driver) (m : Incoming) (r : Repo) :
    ∃ clean r', Effect.exec (mergeBranch F driver m) r = (.ok clean, r') := by
  rw [mergeBranch, Effect.exec_get_bind]
  split_ifs
  · exact ⟨_, _, rfl⟩
  · cases m.kind with
    | refused => exact ⟨_, _, rfl⟩
    | upToDate => exact ⟨_, _, rfl⟩
    | fastForward => exact ⟨_, _, rfl⟩
    | threeWay =>
      dsimp only
      split_ifs <;> exact ⟨_, _, rfl⟩

theorem head_mergeBranch_subset {F : Filters} {driver : Driver} {m : Incoming} {r : Repo}
    (hfits : Fits m r) :
    history r.head ⊆ history (Effect.exec (mergeBranch F driver m) r).2.head := by
  obtain ⟨clean, r', h⟩ := exists_exec_mergeBranch F driver m r
  rw [h]
  rcases exec_mergeBranch_eq_ok F driver h with ⟨-, rfl | ⟨-, -, hhead⟩⟩ | ⟨-, -, -, hkind⟩
  · rfl
  · rw [hhead]
  · rcases hkind with ⟨-, hhead⟩ | ⟨hkind, hhead⟩ | ⟨tree, hhead⟩
    · rw [hhead]
    · rw [hhead]
      exact history_subset_iff.2 (hfits.fastForward hkind)
    · rw [hhead]
      exact fun c hc => inHead_mergeCommit.2 (.inl hc)

theorem headGrowing_finishMerge : HeadGrowing finishMerge := by
  refine headGrowing_of_exec fun r => ?_
  rw [finishMerge, Effect.exec_get_bind]
  split_ifs
  · rfl
  · cases r.mergeHead with
    | none => rfl
    | some theirs => exact fun c hc => inHead_mergeCommit.2 (.inl hc)

theorem headGrowing_resolve (T : CharTables) (F : Filters) (V : View) (clock : ℕ → ℕ) :
    HeadGrowing (do let _ ← resolveModifyDeleteConflicts T F V clock) := by
  refine headGrowing_of_exec fun r => ?_
  have hsame : SameHead r (Effect.exec (resolveModifyDeleteConflicts T F V clock) r).2 :=
    keeps_sameHead_resolve clock r ⟨rfl, rfl⟩
  rw [Effect.exec_bind]
  rcases h : Effect.exec (resolveModifyDeleteConflicts T F V clock) r with ⟨error | notes, r'⟩ <;>
    rw [h] at hsame <;> exact (congrArg history hsame.1).ge

/-- The branches of a clone and of a place after a command that does not move them. -/
def Unmoved (s s' : Clone × Refs) : Prop :=
  s.1.branches.Grows s'.1.branches ∧ s'.1.remotes = s.1.remotes ∧
    ∀ deviceId, s'.2.lookup (deviceBranchName deviceId) = s.2.lookup (deviceBranchName deviceId)

theorem Unmoved.refl (s : Clone × Refs) : Unmoved s s := ⟨.refl _, rfl, fun _ => rfl⟩

theorem unmoved_onBranches {α : Type} {m : Effect Branches Str α}
    (h : s.1.branches.Grows (Effect.exec m s.1.branches).2) : Unmoved s (onBranches m s).2 :=
  ⟨h, rfl, fun _ => rfl⟩

theorem unmoved_unless {α : Type} {next : Except Str α × Clone × Refs} (h : Unmoved s next.2) :
    Unmoved s (e.unless s next).2 := by
  rw [Choices.unless]
  cases e.fault with
  | some error => exact .refl s
  | none => exact h

/-- The command moves no branches from one clone to another. -/
def Cmd.IsLocal : Cmd → Prop
  | .fetch _ | .bundleFetch _ | .pushBranch _ _ | .bundleCreate _ _ _ => False
  | _ => True

/-- A command keeps the branches of its clone, unless it moves some between clones. -/
theorem unmoved_answer {c : Cmd} (hc : c.IsLocal) (hsensible : e.Sensible s c) :
    Unmoved s (answer e s c).2 := by
  cases c with
  | fetch | bundleFetch | pushBranch | bundleCreate => exact hc.elim
  | deviceId => exact unmoved_onBranches ((headGrowing_deviceId _).onRepo.exec _)
  | ensureDeviceBranch id => exact unmoved_onBranches ((growing_ensureDeviceBranch id).exec _)
  | checkoutBranch name => exact unmoved_onBranches ((growing_checkout _ _).exec _)
  | currentCommit =>
    refine unmoved_unless ?_
    cases s.1.branches.repo.head <;> exact .refl s
  | mergeBranch ref =>
    refine unmoved_unless ?_
    cases href : s.1.revParse ref with
    | none => exact .refl s
    | some commit =>
      exact unmoved_onBranches (.of_head (head_mergeBranch_subset (hsensible commit href)))
  | resolveModifyDeleteConflicts => 
    exact unmoved_onBranches ((headGrowing_resolve _ _ _ _).onRepo.exec _)
  | finishMerge => exact unmoved_unless (unmoved_onBranches (headGrowing_finishMerge.onRepo.exec _))
  | remoteBranchExists | localBranchExists | signerForCommit => exact .refl s
  | forEachRef | commitsBetween | isMergeCommit | bundleVerify => exact unmoved_unless (.refl s)
  | work => exact ⟨hsensible.1, hsensible.2, fun _ => rfl⟩
  | land remote => exact ⟨.refl _, rfl, hsensible⟩

end Answer

/-! ### The values and their copies -/

section Replicas

variable {ι π : Type}

/-- The branches of the devices, and the copies of them at the places and in the clones. -/
def World.replicas (N : Network ι π) (w : World ι π) :
    Replicas Str π (ι × RemoteName) (Set Commit) where
  master id := history ((w.clone (N.owner id)).branches.tip (deviceBranchName id))
  shared p id := history ((w.place p).lookup (deviceBranchName id))
  seen m id := history ((w.clone m.1).remotes.lookup
    (trackingName m.2.name (deviceBranchName id)))

/-- The branch that the command takes out of the clone is that of the device. -/
def Cmd.TakesOwn (N : Network ι π) (i : ι) : Cmd → Prop
  | .pushBranch _ name => ∃ id, name = deviceBranchName id ∧ N.owner id = i
  | .bundleCreate _ names _ => ∀ name ∈ names,
      ∀ id, name = deviceBranchName id → N.owner id = i
  | _ => True

theorem deviceBranchName_inj {a b : Str} : deviceBranchName a = deviceBranchName b ↔ a = b :=
  List.append_right_inj _

theorem deviceBranchName_ne_main (id : Str) : deviceBranchName id ≠ "main".toList := by
  intro h
  have hhead : some 's' = some 'm' := congrArg List.head? h
  exact absurd hhead (by decide)

variable [DecidableEq ι] [DecidableEq π] {N : Network ι π} {w w' : World ι π} {i : ι} {c : Cmd}

theorem clone_settle (s : Clone × Refs) (j : ι) :
    (w.settle N i c s).clone j = if j = i then s.1 else w.clone j :=
  Function.update_apply ..

variable (N w w') in
/-- The world changes as the values do in one step, and no remote is replaced. -/
def Simulated : Prop :=
  ∃ act, (∀ i r, ¬ act.Replaces (N.remote i r)) ∧ Replicas.Step (w.replicas N) act (w'.replicas N)

theorem settle_view : w.settle N i c (w.view N i c) = w := by
  rw [World.settle, World.view]
  cases N.placeOf i c <;> simp

theorem simulated_rfl : Simulated N w w := ⟨.work, fun _ _ => id, .work le_rfl rfl rfl⟩

theorem step_of_unmoved {s : Clone × Refs} (h : Unmoved (w.view N i c) s) :
    Simulated N w (w.settle N i c s) := by
  obtain ⟨hgrows, hremotes, hplace⟩ := h
  refine ⟨.work, fun _ _ => id, .work (fun id => ?_) ?_ ?_⟩
  · change history _ ⊆ history _
    rw [clone_settle]
    split_ifs with hi
    · rw [hi]
      exact hgrows _
    · rfl
  · funext p id
    change history _ = history _
    congr 1
    rw [World.view] at hplace
    rw [World.settle]
    cases hp : N.placeOf i c with
    | none => rfl
    | some q =>
      rw [hp] at hplace
      dsimp only
      rw [Function.update_apply]
      split_ifs with hq
      · rw [hq]
        exact hplace id
      · rfl
  · funext m id
    change history _ = history _
    rw [clone_settle]
    split_ifs with hm
    · rw [hremotes, hm]
      rfl
    · rfl

theorem place_settle {p : π} (hp : N.placeOf i c = some p) (s : Clone × Refs) :
    (w.settle N i c s).place = Function.update w.place p s.2 := by
  rw [World.settle, hp]

theorem step_of_track {p : π} (hp : N.placeOf i c = some p)
    (accepts : Option Commit → Commit → Bool) (remote : RemoteName) :
    Simulated N w (w.settle N i c
      ({ w.clone i with remotes := track accepts remote.name (w.place p) (w.clone i).remotes },
        w.place p)) := by
  refine ⟨.observe p (i, remote) fun id => ∃ new ∈ (w.place p).lookup (deviceBranchName id), accepts
    ((w.clone i).remotes.lookup (trackingName remote.name (deviceBranchName id))) new = true,
    fun _ _ => id, ?_⟩
  -- the replicas after the fetch are those before it, but for the one view
  convert Replicas.Step.observe (w.replicas N) p (i, remote) _ using 1
  refine Replicas.ext (funext fun id => ?_) ?_ (funext fun m => funext fun id => ?_)
  · change history _ = history _
    rw [clone_settle]
    split_ifs with hi
    · rw [hi]
    · rfl
  · funext q id
    change history _ = history _
    rw [place_settle hp, Function.update_eq_self]
  · obtain ⟨j, r⟩ := m
    dsimp only [World.replicas]
    rw [clone_settle, Function.update_apply]
    -- the view of this remote, another one of this clone, or that of another clone
    by_cases hm : (j, r) = (i, remote)
    · obtain ⟨rfl, rfl⟩ := Prod.mk.inj hm
      rw [if_pos rfl, if_pos rfl]
      cases hlookup : (w.place p).lookup (deviceBranchName id) with
      | none =>
        rw [lookup_track_of_none hlookup]
        simp
      | some new =>
        rw [lookup_track hlookup]
        split_ifs with h₁ h₂ h₂ <;> simp_all
    · rw [if_neg hm]
      by_cases hj : j = i
      · subst hj
        rw [if_pos rfl, lookup_track_of_ne fun hr => hm (by rw [hr])]
      · rw [if_neg hj]

theorem step_of_view : Simulated N w (w.settle N i c (w.view N i c)) := by
  rw [settle_view]
  exact simulated_rfl

theorem step_of_unless {α : Type} {choices : Choices} {next : Except Str α × Clone × Refs}
    (h : Simulated N w (w.settle N i c next.2)) :
    Simulated N w (w.settle N i c (choices.unless (w.view N i c) next).2) := by
  rw [Choices.unless]
  cases choices.fault with
  | some error => exact step_of_view
  | none => exact h

theorem step_of_put {result : Except Str Refs}
    (h : ∀ heads, result = .ok heads → Simulated N w (w.settle N i c (w.clone i, heads))) :
    Simulated N w (w.settle N i c (put (w.view N i c) result).2) := by
  cases result with
  | ok heads => exact h heads rfl
  | error error => exact step_of_view

theorem step_of_push {remote : RemoteName} {id : Str} (howner : N.owner id = i) {heads : Refs}
    (h : push (w.clone i) (deviceBranchName id) (w.place (N.remote i remote.name)) = .ok heads) :
    Simulated N w (w.settle N i (.pushBranch remote (deviceBranchName id)) (w.clone i, heads)) := by
  refine ⟨.publish (N.remote i remote.name) id, fun _ _ => nofun, ?_⟩
  rw [push] at h
  cases htip : (w.clone i).branches.tip (deviceBranchName id) with
  | none => rw [htip] at h; cases h
  | some new =>
    rw [htip] at h
    dsimp only at h
    split_ifs at h
    obtain rfl := Except.ok.inj h
    convert Replicas.Step.publish (w.replicas N) (N.remote i remote.name) id using 1
    refine Replicas.ext ?_ (funext fun q => funext fun id' => ?_) ?_
    · funext id'
      change history _ = history _
      rw [clone_settle]
      split_ifs with hi <;> simp [hi]
    · dsimp only [World.replicas]
      rw [place_settle rfl, Function.update_apply, Function.update_apply]
      by_cases hq : q = N.remote i remote.name
      · subst hq
        rw [if_pos rfl, if_pos rfl, Function.update_apply]
        by_cases hid : id' = id
        · rw [hid, if_pos rfl, AList.lookup_insert, howner, htip]
        · rw [if_neg hid, AList.lookup_insert_ne fun h => hid (deviceBranchName_inj.1 h)]
      · rw [if_neg hq, if_neg hq]
    · funext m id'
      change history _ = history _
      rw [clone_settle]
      split_ifs with hm <;> simp [hm]

theorem step_of_bundleCreate {file : Str} {names : List Str} {revision : Option Str}
    {since : Option Commit} {heads : Refs}
    (howner : ∀ name ∈ names, ∀ id, name = deviceBranchName id → N.owner id = i)
    (h : bundleCreate (w.clone i) names since = .ok heads) :
    Simulated N w (w.settle N i (.bundleCreate file names revision) (w.clone i, heads)) := by
  refine ⟨.replace (N.file i file) fun id => deviceBranchName id ∈ (w.clone i).newSince since names,
    fun j r hr => N.remote_ne_file j r i file hr.symm, ?_⟩
  rw [bundleCreate] at h
  split_ifs at h
  obtain rfl := Except.ok.inj h
  convert Replicas.Step.replace (w.replicas N) (N.file i file) _ using 1
  refine Replicas.ext ?_ (funext fun q => funext fun id => ?_) ?_
  · funext id
    change history _ = history _
    rw [clone_settle]
    split_ifs with hi <;> simp [hi]
  · dsimp only [World.replicas]
    rw [place_settle rfl, Function.update_apply, Function.update_apply]
    by_cases hq : q = N.file i file
    · subst hq
      rw [if_pos rfl, if_pos rfl, Repo.lookup_setAll]
      by_cases hid : deviceBranchName id ∈ (w.clone i).newSince since names
      · rw [if_pos hid, if_pos hid, howner _ (List.mem_of_mem_filter hid) id rfl]
      · rw [if_neg hid, if_neg hid]
        exact history_none
    · rw [if_neg hq, if_neg hq]
  · funext m id
    change history _ = history _
    rw [clone_settle]
    split_ifs with hm <;> simp [hm]

/-- **A command of a device that takes its own branch only out of its clone is a step of the
values.** -/
theorem Exec.simulates {e : ι × Program.Exchange Cmd.Reply} (h : Exec N w e w')
    (htakes : e.2.1.TakesOwn N e.1) : Simulated N w w' := by
  obtain ⟨choices, hsensible, -, rfl, -⟩ := h
  obtain ⟨i, c, r⟩ := e
  dsimp only at htakes hsensible ⊢
  by_cases hc : c.IsLocal
  · exact step_of_unmoved (unmoved_answer hc hsensible)
  · cases c with
    | fetch remote => exact step_of_unless (step_of_track rfl (fun _ _ => true) remote)
    | bundleFetch file => exact step_of_unless (step_of_track rfl forwards bundleName)
    | pushBranch remote name =>
      obtain ⟨id, rfl, howner⟩ := htakes
      exact step_of_unless (step_of_put fun heads hpush => step_of_push howner hpush)
    | bundleCreate file names since =>
      refine step_of_unless ?_
      split
      · exact step_of_put fun heads hcreate => step_of_bundleCreate htakes hcreate
      · exact step_of_put fun heads hcreate => step_of_bundleCreate htakes hcreate
      · exact step_of_view
    | _ => exact absurd trivial hc

end Replicas

end Cli

end Wkp
