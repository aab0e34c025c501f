import Wkp.Cli.Synced

/-!
# Many devices at work

Any number of syncs, exports and imports on any devices, with everything else that people do there, in
any order of their commands.

* `Cli.Job` : what a device can be at; `Cli.Devices` : the jobs that are running, and the world.
* `Cli.copies_behind` : **no copy of a branch gets ahead of the device that it belongs to.**
* `Cli.commits_kept` : **no device, and no remote, loses a commit of a branch of a device.**
* `Cli.push_forwards` : **no push of a sync is refused because the remote has something else.**
-/

namespace Wkp

open Rust Git

namespace Cli

/-- What a device is at. -/
inductive Job
  | sync (names : Naming) (remote : RemoteName)
  | bundleExport (file : Str) (since : Option Str)
  | bundleImport (file : Str)
  | work
  | land (remote : RemoteName)

/-- What came of it. -/
inductive Done
  | synced (summary : SyncSummary)
  | exported (names : List Str)
  | imported (merged : List Str)
  | worked
  deriving DecidableEq

/-- What came of a job, when it succeeded. -/
def done? : Program Cmd.Reply (Except Str Done) → Option Done
  | .pure (.ok done) => some done
  | _ => none

theorem eq_of_done? {p : Program Cmd.Reply (Except Str Done)} {done : Done}
    (h : done? p = some done) : p = .pure (.ok done) := by
  unfold done? at h
  split at h
  · rw [Option.some.inj h]
  · cases h

/-- The program of a job. -/
def Job.program : Job → Commands Done
  | sync names remote => return .synced (← runSync names remote)
  | bundleExport file since => return .exported (← runBundleExport file since)
  | bundleImport file => return .imported (← runBundleImport file)
  | work => do
    run .work
    return .worked
  | land remote => do
    run (.land remote)
    return .worked

variable {ι π : Type}

/-! ### A job takes the own branch only -/

section Honest

variable (N : Network ι π) (i : ι)

/-- A device has no name but its own. -/
def Named (e : Program.Exchange Cmd.Reply) : Prop :=
  ∀ id, e = ⟨.deviceId, .ok id⟩ → N.owner id = i

/-- The commands take the own branch only out of the clone, and return what is promised. -/
abbrev Honest {α : Type} (post : α → Prop) (m : Commands α) : Prop :=
  m.Sticks (fun _ : Unit => Cmd.TakesOwn N i) (fun _ e _ => Named N i e) (fun _ => post) ()

variable {N i}

theorem honest_pure {α : Type} (a : α) : Honest N i (fun _ => True) (pure a : Commands α) :=
  .pure trivial

theorem Honest.bind {α β : Type} {mid : α → Prop} {post : β → Prop} {m : Commands α}
    {f : α → Commands β} (hm : Honest N i mid m) (hf : ∀ a, mid a → Honest N i post (f a)) :
    Honest N i post (m >>= f) :=
  Script.Sticks.bind hm fun _ => hf

theorem Honest.bind_any {α β : Type} {post : β → Prop} {m : Commands α} {f : α → Commands β}
    (hm : Honest N i (fun _ => True) m) (hf : ∀ a, Honest N i post (f a)) :
    Honest N i post (m >>= f) :=
  hm.bind fun a _ => hf a

theorem honest_run (c : Cmd) (hc : c.TakesOwn N i) : Honest N i (fun _ => True) (run c) :=
  ⟨hc, fun _ _ _ _ _ => trivial⟩

theorem honest_deviceId : Honest N i (fun id => N.owner id = i) (run .deviceId) :=
  ⟨trivial, fun _ _ hnamed id hid => hnamed id (hid ▸ rfl)⟩

theorem honest_checkoutOwnBranch : Honest N i (fun id => N.owner id = i) checkoutOwnBranch :=
  honest_deviceId.bind fun id hid => (honest_run (.ensureDeviceBranch id) trivial).bind fun _ _ =>
    (honest_run (.checkoutBranch _) trivial).bind fun _ _ => .pure hid

theorem honest_mergeAll (refs : List Str) : Honest N i (fun _ => True) (mergeAll refs) := by
  induction refs with
  | nil => exact honest_pure _
  | cons ref refs ih =>
    refine Honest.bind_any ?_ fun _ => ih.bind_any fun _ => honest_pure _
    refine (honest_run (.mergeBranch ref) trivial).bind fun clean _ => ?_
    split_ifs
    · exact honest_pure _
    · exact (honest_run .resolveModifyDeleteConflicts trivial).bind fun _ _ =>
        (honest_run .finishMerge trivial).bind fun _ _ => honest_pure _

theorem honest_flagUnsigned (names : Naming) (cs : List Commit) :
    Honest N i (fun _ => True) (flagUnsigned names cs) := by
  induction cs with
  | nil => exact honest_pure _
  | cons c cs ih =>
    refine (honest_run (.isMergeCommit c) trivial).bind fun isMerge _ => ?_
    split_ifs
    · exact ih
    · refine (honest_run (.signerForCommit c) trivial).bind fun signer _ => ih.bind fun rest _ => ?_
      split_ifs <;> exact honest_pure _

theorem honest_runSync (names : Naming) (remote : RemoteName) :
    Honest N i (fun _ => True) (runSync names remote) :=
  (honest_run (.fetch remote) trivial).bind fun _ _ => honest_checkoutOwnBranch.bind fun id hid =>
    (honest_run .currentCommit trivial).bind fun since _ =>
    (honest_run (.remoteBranchExists remote _) trivial).bind fun _ _ =>
    (honest_run (.forEachRef _) trivial).bind fun _ _ => (honest_mergeAll _).bind fun _ _ =>
    Honest.bind_any
      ((honest_run (.commitsBetween since _) trivial).bind fun _ _ => honest_flagUnsigned names _)
      fun _ => (honest_run (.pushBranch remote _) ⟨id, rfl, hid⟩).bind fun _ _ => honest_pure _

theorem honest_runBundleExport (file : Str) (since : Option Str) :
    Honest N i (fun _ => True) (runBundleExport file since) := by
  refine honest_deviceId.bind fun id hid => (honest_run (.localBranchExists _) trivial).bind
    fun hasMain _ => (honest_run (.bundleCreate file _ since) ?_).bind fun _ _ => honest_pure _
  intro name hname id' hid'
  rcases List.mem_cons.1 hname with rfl | hmain
  · rw [← deviceBranchName_inj.1 hid', hid]
  · -- `main` is no branch of a device
    split_ifs at hmain
    · rw [List.mem_singleton.1 hmain] at hid'
      exact absurd hid'.symm (deviceBranchName_ne_main id')
    · cases hmain

theorem honest_runBundleImport (file : Str) :
    Honest N i (fun _ => True) (runBundleImport file) :=
  (honest_run (.bundleVerify file) trivial).bind fun _ _ =>
    (honest_run (.bundleFetch file) trivial).bind fun _ _ => honest_checkoutOwnBranch.bind fun _ _ =>
    (honest_run (.forEachRef _) trivial).bind fun _ _ => honest_mergeAll _

/-- **A job takes the own branch of its device only out of the clone.** -/
theorem honest_program (job : Job) : Honest N i (fun _ => True) job.program := by
  cases job with
  | sync names remote => exact (honest_runSync names remote).bind fun _ _ => honest_pure _
  | bundleExport file since => exact (honest_runBundleExport file since).bind fun _ _ => honest_pure _
  | bundleImport file => exact (honest_runBundleImport file).bind fun _ _ => honest_pure _
  | work => exact (honest_run .work trivial).bind fun _ _ => honest_pure _
  | land remote => exact (honest_run (.land remote) trivial).bind fun _ _ => honest_pure _

end Honest

/-! ### Runs -/

variable [DecidableEq ι] [DecidableEq π]

/-- The jobs of all devices, and the world. -/
abbrev Devices (ι π : Type) := Pool (ι × Program Cmd.Reply (Except Str Done)) (World ι π)

/-- A device starts a job. -/
def Starts (l : ι × Program Cmd.Reply (Except Str Done)) : Prop := ∃ job : Job, l.2 = job.program.run

/-- The jobs run, one command of one of them at a time. -/
abbrev Devices.Run (N : Network ι π) :
    Devices ι π → List (Pool.Label (ι × Program.Exchange Cmd.Reply)) → Devices ι π → Prop :=
  Pool.Run Program.OwnNext (Exec N) Starts

/-- The rest of a job takes the own branch only out of the clone. -/
def IsHonest (N : Network ι π) (l : ι × Program Cmd.Reply (Except Str Done)) : Prop :=
  Honest N l.1 (fun _ => True) (ExceptT.mk l.2)

/-- The jobs that are running are so. -/
def Devices.AllHonest (N : Network ι π) (d : Devices ι π) : Prop :=
  ∀ t l, d.threads t = some l → IsHonest N l

/-- The commands of a job, as long as nothing goes wrong. -/
def Job.steps (job : Job) (N : Network ι π) (i : ι) (n : ℕ) (w : World ι π) :
    Option (Program Cmd.Reply (Except Str Done) × World ι π) :=
  Program.steps (plainAnswer N i) (fun w c => namesOwn N i c (plainAnswer N i w c).1) n
    job.program.run w

variable {N : Network ι π} {d d' : Devices ι π}
variable {ls : List (Pool.Label (ι × Program.Exchange Cmd.Reply))}

theorem exists_run_of_steps {job : Job} {i : ι} {n : ℕ} {w w' : World ι π}
    {p : Program Cmd.Reply (Except Str Done)} (h : job.steps N i n w = some (p, w'))
    (threads : ℕ → Option (ι × Program Cmd.Reply (Except Str Done))) (t : ℕ)
    (ht : threads t = none) :
    ∃ ls, Devices.Run N ⟨threads, w⟩ ls ⟨Function.update threads t (some (i, p)), w'⟩ := by
  obtain ⟨es, hes⟩ : ∃ es, Trace.Run (Program.Step fun w e => Exec N w (i, e))
      (job.program.run, w) es (p, w') := Program.run_steps (fun _ _ => exec_plain) h
  have hrun : Devices.Run N ⟨Function.update threads t (some (i, job.program.run)), w⟩ _ _ :=
    Pool.Run.of_owner hes (Function.update_self t (some (i, job.program.run)) threads)
  rw [Function.update_idem] at hrun
  exact ⟨.start t :: _, .cons (.start w ht ⟨job, rfl⟩) hrun⟩

theorem IsHonest.next {l l' : ι × Program Cmd.Reply (Except Str Done)}
    {e : ι × Program.Exchange Cmd.Reply} {w w' : World ι π} (hl : IsHonest N l)
    (hnext : Program.OwnNext l e l') (h : Exec N w e w') :
    e.2.1.TakesOwn N e.1 ∧ IsHonest N l' := by
  obtain ⟨i, p⟩ := l
  obtain ⟨j, p'⟩ := l'
  obtain ⟨hi, hj, hnext⟩ := hnext
  dsimp only at hi hj hnext
  subst hj
  rw [hi]
  exact hl.step hnext fun id hid => hi ▸ h.choose_spec.2.2.2 id hid

omit [DecidableEq ι] [DecidableEq π] in
theorem Devices.AllHonest.update (hd : d.AllHonest N) {t : ℕ}
    {l : ι × Program Cmd.Reply (Except Str Done)} (hl : IsHonest N l) (w : World ι π) :
    Devices.AllHonest N ⟨Function.update d.threads t (some l), w⟩ := by
  intro u l' hu
  dsimp only at hu
  by_cases h : u = t
  · subst h
    rw [Function.update_self] at hu
    exact Option.some.inj hu ▸ hl
  · rw [Function.update_of_ne h] at hu
    exact hd u l' hu

theorem step_simulates {l : Pool.Label (ι × Program.Exchange Cmd.Reply)} (hd : d.AllHonest N)
    (h : Pool.Step Program.OwnNext (Exec N) Starts d l d') :
    d'.AllHonest N ∧ Simulated N d.state d'.state := by
  cases h with
  | @start threads w i p hfree hstart =>
    obtain ⟨job, hjob⟩ := hstart
    refine ⟨hd.update (l := p) ?_ w, simulated_rfl⟩
    rw [IsHonest, hjob]
    exact honest_program job
  | @call threads w w' i p p' e hthread hnext hexec =>
    obtain ⟨htakes, hp'⟩ := (hd i p hthread).next hnext hexec
    exact ⟨hd.update hp' w', hexec.simulates htakes⟩

/-- **A run of the jobs is a run of the values**, in which no remote is replaced. -/
theorem run_simulates (run : d.Run N ls d') (hd : d.AllHonest N) :
    d'.AllHonest N ∧ ∃ acts, Replicas.Run (d.state.replicas N) acts (d'.state.replicas N) ∧
      ∀ a ∈ acts, ∀ i r, ¬ a.Replaces (N.remote i r) := by
  induction run with
  | nil d => exact ⟨hd, [], .nil _, nofun⟩
  | cons h _ ih =>
    obtain ⟨hd₁, act, hact, hstep⟩ := step_simulates hd h
    obtain ⟨hd', acts, hrun, hacts⟩ := ih hd₁
    exact ⟨hd', act :: acts, .cons hstep hrun, List.forall_mem_cons.2 ⟨hact, hacts⟩⟩

/-! ### Two devices -/

/-- Two devices with one remote and one place for bundles. -/
def exampleNetwork : Network Bool Bool where
  remote _ _ := false
  file _ _ := true
  remote_ne_file := by simp
  owner id := id = "b".toList

/-- The clone of a device with one commit. -/
def exampleClone (id : Str) (signature : Signature) : Clone where
  branches :=
    { repo :=
        { head := some (.root ∅ signature)
          index := ∅
          worktree := AList.singleton ".wkp/device-id".toList (.text (id ++ ['\n'])) }
      headRef := .branch (deviceBranchName id)
      others := ∅ }
  remotes := ∅

/-- The devices and an empty remote: the commit of the first device is not signed. -/
def exampleWorld : World Bool Bool where
  clone i := if i then exampleClone "b".toList ⟨"G".toList, "human:b".toList⟩
    else exampleClone "a".toList unsigned
  place _ := ∅

/-- No job is running yet. -/
def exampleDevices : Devices Bool Bool := ⟨fun _ => none, exampleWorld⟩

/-- The name of the remote. -/
def exampleRemote : RemoteName := ⟨"origin".toList, by decide⟩

/-- How git prints the commits. -/
def exampleNaming : Naming := ⟨fun _ => "0".toList, fun c => c.label.signer⟩

/-- A sync with the remote. -/
def exampleSyncJob : Job := .sync exampleNaming exampleRemote

/-- The world after the first device synced, and then the second. -/
def exampleSynced : Option (World Bool Bool) :=
  (exampleSyncJob.steps exampleNetwork false 20 exampleWorld).bind fun first =>
    (exampleSyncJob.steps exampleNetwork true 20 first.2).map Prod.snd

theorem exists_run_exampleSynced {w : World Bool Bool} (h : exampleSynced = some w) :
    ∃ threads ls, exampleDevices.Run exampleNetwork ls ⟨threads, w⟩ := by
  obtain ⟨⟨p, w₁⟩, hfirst, h⟩ := Option.bind_eq_some_iff.1 h
  obtain ⟨⟨p', w₂⟩, hsecond, rfl⟩ := Option.map_eq_some_iff.1 h
  obtain ⟨ls, hrun⟩ := exists_run_of_steps hfirst exampleDevices.threads 0 rfl
  obtain ⟨ls', hrun'⟩ := exists_run_of_steps hsecond
    (Function.update exampleDevices.threads 0 (some (false, p))) 1 rfl
  exact ⟨_, _, hrun.append hrun'⟩

/-! ### Nothing gets ahead, and nothing is lost -/

/-- No job is running, and no copy of a branch of a device is ahead of the device. -/
structure Devices.Start (N : Network ι π) (d : Devices ι π) : Prop where
  /-- No job is running. -/
  idle : ∀ t, d.threads t = none
  /-- No copy is ahead. -/
  behind : (d.state.replicas N).Behind

omit [DecidableEq ι] [DecidableEq π] in
theorem Devices.Start.allHonest (hd : d.Start N) : d.AllHonest N := fun t l ht => by
  rw [hd.idle t] at ht
  cases ht

/-- The branch of a device, in its own clone. -/
def World.ownBranch (N : Network ι π) (w : World ι π) (id : Str) : Option Commit :=
  (w.clone (N.owner id)).branches.tip (deviceBranchName id)

theorem Devices.Start.behind_of_run (hd : d.Start N) (run : d.Run N ls d') :
    (d'.state.replicas N).Behind := by
  obtain ⟨-, acts, hrun, -⟩ := run_simulates run hd.allHonest
  exact Replicas.Run.behind hrun hd.behind

theorem start_exampleDevices : exampleDevices.Start exampleNetwork where
  idle _ := rfl
  behind := by
    refine ⟨fun p id => ?_, fun m id => ?_⟩
    · exact history_none.subset.trans (Set.empty_subset _)
    · obtain ⟨i, r⟩ := m
      cases i <;> exact history_none.subset.trans (Set.empty_subset _)

/-- **No copy of a branch gets ahead of its device**, in any run: what any remote, any bundle and any
other clone has of the branch of a device, the device has. -/
theorem copies_behind (hd : d.Start N) (run : d.Run N ls d') (id : Str) :
    (∀ p, history ((d'.state.place p).lookup (deviceBranchName id)) ⊆
      history (d'.state.ownBranch N id)) ∧
    ∀ i (r : RemoteName), history ((d'.state.clone i).remotes.lookup
      (trackingName r.name (deviceBranchName id))) ⊆ history (d'.state.ownBranch N id) := by
  have h := hd.behind_of_run run
  exact ⟨fun p => h.shared p id, fun i r => h.seen (i, r) id⟩

/-- The remote has a copy of the branch of the first device, and the second device has one too. -/
theorem copies_behind_exampleSynced : ∃ w, exampleSynced = some w ∧
    ((w.place false).lookup "sync/a".toList).isSome ∧
    ((w.clone true).remotes.lookup "origin/sync/a".toList).isSome ∧
    history ((w.place false).lookup "sync/a".toList) ⊆
      history (w.ownBranch exampleNetwork "a".toList) := by
  obtain ⟨w, hw, hsome⟩ := (Option.any_eq_true _ _).1 (by decide +kernel : (exampleSynced.any fun w =>
    ((w.place false).lookup "sync/a".toList).isSome &&
      ((w.clone true).remotes.lookup "origin/sync/a".toList).isSome) = true)
  obtain ⟨threads, ls, hrun⟩ := exists_run_exampleSynced hw
  obtain ⟨hplace, hclone⟩ := (Bool.and_eq_true _ _).mp hsome
  exact ⟨w, hw, hplace, hclone, (copies_behind start_exampleDevices hrun "a".toList).1 false⟩

/-- **No commit is lost**, in any run: neither the device nor a remote loses one that the branch of the
device had. -/
theorem commits_kept (hd : d.Start N) (run : d.Run N ls d') (id : Str) :
    history (d.state.ownBranch N id) ⊆ history (d'.state.ownBranch N id) ∧
    ∀ i r, history ((d.state.place (N.remote i r)).lookup (deviceBranchName id)) ⊆
      history ((d'.state.place (N.remote i r)).lookup (deviceBranchName id)) := by
  obtain ⟨-, acts, hrun, hacts⟩ := run_simulates run hd.allHonest
  exact ⟨Replicas.Run.master_le hrun id, fun i r =>
    Replicas.Run.shared_le hrun hd.behind (fun a ha => hacts a ha i r) id⟩

/-- The first device still has its commit after both syncs. -/
theorem commits_kept_exampleSynced : ∃ w, exampleSynced = some w ∧
    history (exampleWorld.ownBranch exampleNetwork "a".toList) ⊆
      history (w.ownBranch exampleNetwork "a".toList) := by
  obtain ⟨w, hw⟩ := Option.isSome_iff_exists.1 (by decide +kernel : exampleSynced.isSome = true)
  obtain ⟨threads, ls, hrun⟩ := exists_run_exampleSynced hw
  exact ⟨w, hw, (commits_kept start_exampleDevices hrun "a".toList).1⟩

/-- **No push is refused because of what is there**, in any run: whenever a job is about to push, the
branch of the device has all that the remote has. -/
theorem push_forwards (hd : d.Start N) (run : d.Run N ls d') {t : ℕ} {i : ι} {remote : RemoteName}
    {name : Str} {k : Cmd.Reply (.pushBranch remote name) → Program Cmd.Reply (Except Str Done)}
    (hpush : d'.threads t = some (i, .call (.pushBranch remote name) k)) {new : Commit}
    (hnew : (d'.state.clone i).branches.tip name = some new) :
    push (d'.state.clone i) name (d'.state.place (N.remote i remote.name)) =
      .ok ((d'.state.place (N.remote i remote.name)).insert name new) := by
  obtain ⟨hhonest, -⟩ := run_simulates run hd.allHonest
  obtain ⟨⟨id, rfl, rfl⟩, -⟩ := hhonest t _ hpush
  have h : history ((d'.state.place (N.remote (N.owner id) remote.name)).lookup
      (deviceBranchName id)) ⊆ history (d'.state.ownBranch N id) :=
    (hd.behind_of_run run).shared _ id
  rw [World.ownBranch, hnew] at h
  rw [push, hnew]
  exact if_pos (decide_eq_true (history_subset_iff.1 h))

/-- The first device is about to push after eight commands, and can. -/
theorem push_forwards_exampleSyncJob : ∃ p w new,
    exampleSyncJob.steps exampleNetwork false 8 exampleWorld =
      some (p, w) ∧ (w.clone false).branches.tip "sync/a".toList = some new ∧
    push (w.clone false) "sync/a".toList (w.place false) =
      .ok ((w.place false).insert "sync/a".toList new) := by
  obtain ⟨⟨p, w⟩, hsteps, hcall⟩ := (Option.any_eq_true _ _).1 (by decide +kernel :
    ((exampleSyncJob.steps exampleNetwork false 8 exampleWorld).any fun r =>
      decide (r.1.call? = some (.pushBranch exampleRemote "sync/a".toList)) &&
        ((r.2.clone false).branches.tip "sync/a".toList).isSome) = true)
  obtain ⟨hcall, htip⟩ := (Bool.and_eq_true _ _).mp hcall
  obtain ⟨k, rfl⟩ := Program.call?_eq_some.1 (of_decide_eq_true hcall)
  obtain ⟨new, hnew⟩ := Option.isSome_iff_exists.1 htip
  obtain ⟨ls, hrun⟩ := exists_run_of_steps hsteps exampleDevices.threads 0 rfl
  exact ⟨_, w, new, hsteps, hnew,
    push_forwards start_exampleDevices hrun (Function.update_self ..) hnew⟩

end Cli

end Wkp
