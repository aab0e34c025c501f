import Wkp.Cli.Brought
import Wkp.Cli.Devices

/-!
# What a sync brings

A job that is alone on its clone, while the other devices and their jobs go on.

* `Cli.Others` : what the others do meanwhile; `Cli.Alone` : a command of the job among them.
* `Cli.JobRun` : a job in a run of many.
* `Cli.sync_delivers` : **every branch that the remote had of another device is in the own branch.**
* `Cli.sync_passes_on` : **what one device synced, another has after its next sync.**
* `Cli.sync_reports` : **no unsigned commit comes in without being reported.**
-/

namespace Wkp

open Rust Git Program

namespace Cli

variable {ι π : Type} {N : Network ι π} {i : ι} {mine : Set π}

/-! ### The others -/

/-- What the others do while a job is alone on the clone of its device and at some places: these stay
as they are, and the remotes lose no commit of the branch of a device. -/
structure Others (N : Network ι π) (i : ι) (mine : Set π) (w w' : World ι π) : Prop where
  /-- The clone stays. -/
  clone : w'.clone i = w.clone i
  /-- The places stay. -/
  place : ∀ p ∈ mine, w'.place p = w.place p
  /-- The remotes lose nothing. -/
  remote : ∀ j r id, history ((w.place (N.remote j r)).lookup (deviceBranchName id)) ⊆
    history ((w'.place (N.remote j r)).lookup (deviceBranchName id))

theorem Others.refl (w : World ι π) : Others N i mine w w :=
  ⟨rfl, fun _ _ => rfl, fun _ _ _ => subset_rfl⟩

theorem Others.trans {w₁ w₂ w₃ : World ι π} (h₁ : Others N i mine w₁ w₂)
    (h₂ : Others N i mine w₂ w₃) : Others N i mine w₁ w₃ :=
  ⟨h₂.clone.trans h₁.clone, fun p hp => (h₂.place p hp).trans (h₁.place p hp),
    fun j r id => (h₁.remote j r id).trans (h₂.remote j r id)⟩

theorem history_subset_of_push {c : Clone} {name : Str} {heads heads' : Refs}
    (h : push c name heads = .ok heads') (b : Str) :
    history (heads.lookup b) ⊆ history (heads'.lookup b) := by
  rw [push] at h
  cases htip : c.branches.tip name with
  | none => rw [htip] at h; cases h
  | some new =>
    rw [htip] at h
    dsimp only at h
    split_ifs at h with hforwards
    obtain rfl := Except.ok.inj h
    by_cases hb : b = name
    · subst hb
      rw [AList.lookup_insert]
      exact history_subset_iff.2 (of_decide_eq_true hforwards)
    · rw [AList.lookup_insert_ne hb]

/-- A command that keeps the branches at its place, if that is a remote. -/
theorem history_subset_answer {e : Choices} {s : Clone × Refs} {c : Cmd}
    (hsensible : e.Sensible s c) (hc : ∀ file names since, c ≠ .bundleCreate file names since)
    (id : Str) : history (s.2.lookup (deviceBranchName id)) ⊆
      history ((answer e s c).2.2.lookup (deviceBranchName id)) := by
  have hunless : ∀ {α : Type} (next : Except Str α × Clone × Refs),
      history (s.2.lookup (deviceBranchName id)) ⊆ history (next.2.2.lookup (deviceBranchName id)) →
      history (s.2.lookup (deviceBranchName id)) ⊆
        history ((e.unless s next).2.2.lookup (deviceBranchName id)) := by
    intro α next h
    rw [Choices.unless]
    cases e.fault with
    | some error => rfl
    | none => exact h
  by_cases hlocal : c.IsLocal
  · rw [(unmoved_answer hlocal hsensible).2.2]
  · cases c with
    | fetch remote => exact hunless _ subset_rfl
    | bundleFetch file => exact hunless _ subset_rfl
    | bundleCreate file names since => exact absurd rfl (hc file names since)
    | pushBranch remote name =>
      refine hunless _ ?_
      cases hpush : push s.1 name s.2 with
      | error error => rfl
      | ok heads => exact history_subset_of_push hpush _
    | _ => exact absurd trivial hlocal

variable [DecidableEq ι] [DecidableEq π] {w w₁ w' : World ι π}

theorem Exec.remote_subset {e : ι × Exchange Cmd.Reply} (h : Exec N w e w') (j : ι) (r id : Str) :
    history ((w.place (N.remote j r)).lookup (deviceBranchName id)) ⊆
      history ((w'.place (N.remote j r)).lookup (deviceBranchName id)) := by
  obtain ⟨choices, hsensible, -, rfl, -⟩ := h
  cases hp : N.placeOf e.1 e.2.1 with
  | none => rw [World.settle, hp]
  | some p =>
    rw [place_settle hp, Function.update_apply]
    split_ifs with hremote
    · have hc : ∀ file names since, e.2.1 ≠ .bundleCreate file names since := by
        intro file names since hc
        rw [hc] at hp
        exact N.remote_ne_file _ _ _ _ (hremote.trans (Option.some.inj hp).symm)
      have hview : (w.view N e.1 e.2.1).2 = w.place (N.remote j r) := by
        rw [World.view, hp, hremote]
        rfl
      rw [← hview]
      exact history_subset_answer hsensible hc id
    · rfl

theorem Exec.others {e : ι × Exchange Cmd.Reply} (h : Exec N w e w') (he : e.1 ≠ i)
    (hmine : ∀ p ∈ mine, N.placeOf e.1 e.2.1 ≠ some p) : Others N i mine w w' := by
  refine ⟨?_, fun p hp => ?_, h.remote_subset⟩
  all_goals obtain ⟨choices, -, -, rfl, -⟩ := h
  · rw [clone_settle, if_neg (Ne.symm he)]
  · cases hplace : N.placeOf e.1 e.2.1 with
    | none => rw [World.settle, hplace]
    | some q =>
      have hpq : p ≠ q := fun hpq => hmine p hp (hpq ▸ hplace)
      rw [place_settle hplace, Function.update_of_ne hpq]

/-! ### A job that is alone on its clone -/

variable (N i mine) in
/-- A command of the device, after the others have done something. -/
abbrev Alone : World ι π → Exchange Cmd.Reply → World ι π → Prop :=
  Relying (Others N i mine) fun w e => Exec N w (i, e)

theorem Alone.onClone {e : Exchange Cmd.Reply} (h : Alone N i mine w e w') :
    OnClone (w.clone i) e (w'.clone i) := by
  obtain ⟨w₁, hothers, choices, hsensible, hreply, rfl, -⟩ := h
  have hview : w₁.view N i e.1 = (w.clone i, ((N.placeOf i e.1).map w₁.place).getD ∅) := by
    rw [World.view, hothers.clone]
  rw [hview] at hsensible hreply ⊢
  exact ⟨choices, _, hsensible, hreply, by rw [clone_settle, if_pos rfl]⟩

theorem ends_onClone {α : Type} {p : Program Cmd.Reply α} {a : α}
    (h : Program.Ends (Alone N i mine) p w a w') : Program.Ends OnClone p (w.clone i) a (w'.clone i) :=
  Program.Ends.map (f := fun w : World ι π => w.clone i) (fun _ _ _ => Alone.onClone) h

theorem Alone.fetch {remote : RemoteName} {u : Unit} (h : Alone N i mine w ⟨.fetch remote, .ok u⟩ w') :
    ∃ heads, w'.clone i = (w.clone i).fetch remote heads ∧ ∀ id,
      history ((w.place (N.remote i remote.name)).lookup (deviceBranchName id)) ⊆
        history (heads.lookup (deviceBranchName id)) := by
  obtain ⟨w₁, hothers, choices, -, hreply, rfl, -⟩ := h
  obtain ⟨-, hs⟩ := Choices.unless_eq_ok hreply
  refine ⟨w₁.place (N.remote i remote.name), ?_, hothers.remote i remote.name⟩
  rw [clone_settle, if_pos rfl, answer, hs]
  exact congrArg (fun c : Clone => c.fetch remote _) hothers.clone

theorem Alone.pushBranch {remote : RemoteName} {name : Str} {u : Unit}
    (h : Alone N i mine w ⟨.pushBranch remote name, .ok u⟩ w') : w'.clone i = w.clone i ∧
      (w'.place (N.remote i remote.name)).lookup name = (w.clone i).branches.tip name := by
  obtain ⟨w₁, hothers, choices, -, hreply, rfl, -⟩ := h
  obtain ⟨hput, hs⟩ := Choices.unless_eq_ok hreply
  rw [clone_settle, if_pos rfl, place_settle rfl, Function.update_self, answer, hs,
    ← hothers.clone]
  change (put (w₁.view N i _) (push (w₁.clone i) name (w₁.place (N.remote i remote.name)))).1 = _
    at hput
  change (put (w₁.view N i _) (push (w₁.clone i) name (w₁.place _))).2.1 = _ ∧
    AList.lookup name (put (w₁.view N i _) (push (w₁.clone i) name (w₁.place _))).2.2 = _
  rw [push] at hput ⊢
  cases htip : (w₁.clone i).branches.tip name with
  | none => rw [htip] at hput; cases hput
  | some new =>
    rw [htip] at hput
    dsimp only at hput ⊢
    split_ifs at hput ⊢
    · exact ⟨rfl, AList.lookup_insert _⟩
    · cases hput

/-! ### A sync that is alone on its clone -/

/-- What comes of a sync that succeeds, from the branch with the name of the device. -/
structure Synced (N : Network ι π) (i : ι) (names : Naming) (remote : RemoteName)
    (summary : SyncSummary) (id : Str) (w w' : World ι π) : Prop where
  /-- The name is that of the device. -/
  owner : N.owner id = i
  /-- Its branch was pushed. -/
  pushedBranch : summary.pushedBranch = deviceBranchName id
  /-- Nothing else was fetched. -/
  remotes : ∃ heads, (w'.clone i).remotes = ((w.clone i).fetch remote heads).remotes ∧ ∀ id,
    history ((w.place (N.remote i remote.name)).lookup (deviceBranchName id)) ⊆
      history (heads.lookup (deviceBranchName id))
  /-- Every branch of another device that was fetched was merged. -/
  others : ∀ other ≠ id, trim (remote.branchOf other) = remote.branchOf other →
    remote.branchOf other ∈ (w'.clone i).remotes → remote.branchOf other ∈ summary.merged
  /-- The branch has what it had. -/
  keeps : history ((w.clone i).branches.base id) ⊆
    history ((w'.clone i).branches.tip (deviceBranchName id))
  /-- It has every branch that was merged. -/
  merges : ∀ ref ∈ summary.merged, history ((w'.clone i).revParse ref) ⊆
    history ((w'.clone i).branches.tip (deviceBranchName id))
  /-- Else it has merges only. -/
  made : ∀ x ∈ history ((w'.clone i).branches.tip (deviceBranchName id)),
    x ∈ history ((w.clone i).branches.base id) ∨
      (∃ ref ∈ summary.merged, x ∈ history ((w'.clone i).revParse ref)) ∨ 1 < x.parents.length
  /-- The new commits that are not signed are reported. -/
  flagged : ∀ x ∈ history ((w'.clone i).branches.tip (deviceBranchName id)),
    x ∉ history ((w.clone i).branches.base id) → NoMerge x = true → NotSigned x = true →
      names.entry x ∈ summary.unsignedOrUnknown
  /-- New commits are reported, and merges are not. -/
  flags : ∀ entry ∈ summary.unsignedOrUnknown, ∃ x,
    x ∈ history ((w'.clone i).branches.tip (deviceBranchName id)) ∧
      x ∉ history ((w.clone i).branches.base id) ∧ NoMerge x = true ∧ entry = names.entry x
  /-- The remote has the branch. -/
  published : (w'.place (N.remote i remote.name)).lookup (deviceBranchName id) =
    (w'.clone i).branches.tip (deviceBranchName id)

theorem owner_of_checkoutOwnBranch {id : Str}
    (h : Program.Ends (Alone N i mine) checkoutOwnBranch.run w (.ok id) w') : N.owner id = i := by
  obtain ⟨id', w₁, hid, h⟩ := Script.ends_bind.1 h
  obtain ⟨u, w₂, -, h⟩ := Script.ends_bind.1 h
  obtain ⟨v, w₃, -, h⟩ := Script.ends_bind.1 h
  obtain ⟨rfl, -⟩ := Script.ends_pure.1 h
  obtain ⟨w₄, -, choices, -, -, -, hnamed⟩ := ends_run.1 hid
  exact hnamed id' rfl

theorem mem_otherDeviceSyncRefs {c : Clone} {remote : RemoteName} {id other : Str} (hother : other ≠ id)
    (htrim : trim (remote.branchOf other) = remote.branchOf other)
    (hmem : remote.branchOf other ∈ c.remotes) : remote.branchOf other ∈
      otherDeviceSyncRefs remote.name id (c.forEachRef (trackingName remote.name "sync/".toList)) := by
  refine mem_readRefs.2 ⟨⟨_, mem_forEachRef.2 ⟨hmem, other, ?_⟩, htrim⟩, trackingName_ne_nil _ _,
    decide_eq_true fun h => hother ?_⟩
  · simp [trackingName, deviceBranchName]
  · exact deviceBranchName_inj.1 (trackingName_inj.1 h).2

theorem synced_of_ends {names : Naming} {remote : RemoteName} {summary : SyncSummary}
    (h : Program.Ends (Alone N i mine) (runSync names remote).run w (.ok summary) w') :
    ∃ id, Synced N i names remote summary id w w' := by
  obtain ⟨_, w₁, hfetch, h⟩ := Script.ends_bind.1 h
  obtain ⟨id, w₂, hcheckout, h⟩ := Script.ends_bind.1 h
  obtain ⟨since, w₃, hsince, h⟩ := Script.ends_bind.1 h
  obtain ⟨hasMain, w₄, hmain, h⟩ := Script.ends_bind.1 h
  obtain ⟨printed, w₅, hprinted, h⟩ := Script.ends_bind.1 h
  obtain ⟨merged, w₆, hmerged, h⟩ := Script.ends_bind.1 h
  obtain ⟨entries, w₇, hentries, h⟩ := Script.ends_bind.1 h
  obtain ⟨_, w₈, hpush, h⟩ := Script.ends_bind.1 h
  obtain ⟨rfl, rfl⟩ := Script.ends_pure.1 h
  obtain ⟨heads, hfetched, hheads⟩ := (ends_run.1 hfetch).fetch
  obtain ⟨hremotes, href, hhead, hsome, hnone⟩ := ends_checkoutOwnBranch (ends_onClone hcheckout)
  obtain ⟨hc₃, htip⟩ := (ends_run.1 hsince).onClone.currentCommit
  obtain ⟨hc₄, -⟩ := (ends_run.1 hmain).onClone.remoteBranchExists
  obtain ⟨hc₅, rfl⟩ := (ends_run.1 hprinted).onClone.forEachRef
  rw [hc₃] at hc₄
  rw [hc₄] at hc₅
  have hmerged := ends_onClone hmerged
  rw [hc₅] at hmerged
  obtain ⟨rfl, hbrings⟩ := brings_mergeAll hnone hsome hmerged
  obtain ⟨commits, w₉, hcommits, hflags⟩ := Script.ends_bind.1 hentries
  obtain ⟨hc₉, hmem⟩ := (ends_run.1 hcommits).onClone.commitsBetween
  obtain ⟨hc₇, hlow, hhigh⟩ := flags_flagUnsigned (ends_onClone hflags)
  obtain ⟨hc₈, hpublished⟩ := (ends_run.1 hpush).pushBranch
  rw [hc₉] at hc₇
  rw [hc₇] at hc₈ hpublished
  -- the branch of the device is `HEAD` from the checkout on
  have hown : (w₆.clone i).branches.tip (deviceBranchName id) = (w₆.clone i).branches.repo.head :=
    if_pos (hbrings.headRef.trans href)
  have hbase : (w₂.clone i).branches.repo.head = (w.clone i).branches.base id := by
    rw [hhead, hfetched]
    rfl
  have hparse : ∀ ref, (w₆.clone i).revParse ref = (w₂.clone i).revParse ref := fun ref => by
    rw [Clone.revParse, hbrings.remotes, Clone.revParse]
  have hnew : ∀ x, History.IsAncestor x since ↔ x ∈ history ((w.clone i).branches.base id) :=
    fun x => by rw [← hbase, htip, mem_history_some]
  refine ⟨id, owner_of_checkoutOwnBranch hcheckout, rfl, ⟨heads, ?_, hheads⟩, ?_, ?_, ?_, ?_, ?_, ?_,
    ?_⟩
  · rw [hc₈, hbrings.remotes, hremotes, hfetched]
  · intro other hother htrim hmem
    rw [hc₈, hbrings.remotes] at hmem
    rw [hc₄]
    exact List.mem_append_right _ (mem_otherDeviceSyncRefs hother htrim hmem)
  · rw [hc₈, hown, ← hbase]
    exact hbrings.keeps
  · intro ref href
    rw [hc₈, hown, hparse]
    exact hbrings.merges ref href
  · intro x hx
    rw [hc₈, hown] at hx
    simpa only [hc₈, hparse, hbase] using hbrings.made x hx
  · intro x hx hold hmerge hsigned
    rw [hc₈] at hx
    refine hlow.subset (List.mem_map_of_mem (List.mem_filter.2 ⟨(hmem x).2 ⟨hx, ?_⟩, ?_⟩))
    · rwa [hnew]
    · rw [hmerge, hsigned]
      rfl
  · intro entry hentry
    obtain ⟨x, hx, rfl⟩ := List.mem_map.1 (hhigh.subset hentry)
    obtain ⟨hx, hmerge⟩ := List.mem_filter.1 hx
    obtain ⟨htip', hold⟩ := (hmem x).1 hx
    exact ⟨x, by rwa [hc₈], by rwa [← hnew], hmerge, rfl⟩
  · rw [hpublished, hc₈]

/-! ### A job in a run of many -/

/-- A job of a device starts and succeeds, and no other job works on the clone, or at some places,
meanwhile. -/
structure JobRun (N : Network ι π) (mine : Set π) (d : Devices ι π)
    (ls : List (Pool.Label (ι × Exchange Cmd.Reply))) (d' : Devices ι π) (t : ℕ) (i : ι)
    (job : Job) (done : Done) : Prop where
  /-- The jobs run. -/
  run : d.Run N ls d'
  /-- The job is one of them. -/
  starts : d.threads t = some (i, job.program.run)
  /-- It succeeds. -/
  ends : d'.threads t = some (i, .pure (.ok done))
  /-- It is alone on the clone and at the places. -/
  alone : ∀ u e, .call u e ∈ ls → u ≠ t → e.1 ≠ i ∧ ∀ p ∈ mine, N.placeOf e.1 e.2.1 ≠ some p

variable {d d₁ d₂ d' : Devices ι π} {ls ls₁ ls₂ : List (Pool.Label (ι × Exchange Cmd.Reply))}
variable {t u : ℕ} {j : ι} {mine' : Set π} {names names' : Naming} {remote remote' : RemoteName}
variable {summary summary' : SyncSummary}

theorem JobRun.ends_program {job : Job} {done : Done} (h : JobRun N mine d ls d' t i job done) :
    ∃ w, Program.Ends (Alone N i mine) job.program.run d.state (.ok done) w ∧
      Others N i mine w d'.state := by
  obtain ⟨-, es, w, hrun, hothers⟩ := h.run.relying (R := Others N i mine) Others.refl
    (fun _ _ _ => Others.trans) h.starts h.ends fun u e hmem hu s s' hexec =>
      hexec.others (h.alone u e hmem hu).1 (h.alone u e hmem hu).2
  exact ⟨w, ⟨es, hrun⟩, hothers⟩

theorem exists_jobRun_of_steps {job : Job} {n : ℕ} {done : Done}
    (h : job.steps N i n w = some (.pure (.ok done), w'))
    (threads : ℕ → Option (ι × Program Cmd.Reply (Except Str Done))) (t : ℕ)
    (ht : threads t = some (i, job.program.run)) (mine : Set π) :
    ∃ ls, JobRun N mine ⟨threads, w⟩ ls
      ⟨Function.update threads t (some (i, .pure (.ok done))), w'⟩ t i job done := by
  obtain ⟨es, hes⟩ : ∃ es, Trace.Run (Program.Step fun w e => Exec N w (i, e))
      (job.program.run, w) es (.pure (.ok done), w') := Program.run_steps (fun _ _ => exec_plain) h
  refine ⟨_, Pool.Run.of_owner hes ht, ht, Function.update_self .., fun u e he hu => ?_⟩
  obtain ⟨e', -, he⟩ := List.mem_map.1 he
  cases he
  exact absurd rfl hu

theorem JobRun.synced (h : JobRun N mine d ls d' t i (.sync names remote) (.synced summary)) :
    ∃ id w, Synced N i names remote summary id d.state w ∧ Others N i mine w d'.state := by
  obtain ⟨w, hends, hothers⟩ := h.ends_program
  obtain ⟨summary', w₁, hsync, hdone⟩ := Script.ends_bind.1 hends
  obtain ⟨hsummary, rfl⟩ := Script.ends_pure.1 hdone
  obtain rfl := Done.synced.inj hsummary
  obtain ⟨id, hsynced⟩ := synced_of_ends hsync
  exact ⟨id, w₁, hsynced, hothers⟩

theorem Devices.Run.remote_subset (run : d.Run N ls d') (r id : Str) :
    history ((d.state.place (N.remote i r)).lookup (deviceBranchName id)) ⊆
      history ((d'.state.place (N.remote i r)).lookup (deviceBranchName id)) := by
  induction run with
  | nil d => rfl
  | cons hstep _ ih =>
    refine subset_trans ?_ ih
    cases hstep with
    | start => rfl
    | call hthread hnext hexec => exact hexec.remote_subset i r id

omit [DecidableEq ι] [DecidableEq π] in
theorem Synced.delivers {id : Str} (h : Synced N i names remote summary id w w') {other : Str}
    (hother : other ≠ id) (htrim : trim (remote.branchOf other) = remote.branchOf other) :
    history ((w.place (N.remote i remote.name)).lookup (deviceBranchName other)) ⊆
      history ((w'.clone i).branches.tip (deviceBranchName id)) := by
  obtain ⟨heads, hremotes, hheads⟩ := h.remotes
  refine (hheads other).trans ?_
  cases hnew : heads.lookup (deviceBranchName other) with
  | none => simp
  | some new =>
    have hlookup : (w'.clone i).remotes.lookup (remote.branchOf other) = some new := by
      rw [hremotes]
      exact lookup_fetch hnew
    have hmem : remote.branchOf other ∈ (w'.clone i).remotes :=
      AList.lookup_isSome.1 (hlookup ▸ rfl)
    rw [← hlookup, ← revParse_trackingName]
    · exact h.merges _ (h.others other hother htrim hmem)
    · exact deviceBranchName_not_remotes other

omit [DecidableEq ι] [DecidableEq π] in
theorem Synced.ownBranch_eq {id : Str} (h : Synced N i names remote summary id w w₁)
    (hothers : Others N i mine w₁ w') :
    w'.ownBranch N id = (w₁.clone i).branches.tip (deviceBranchName id) := by
  rw [World.ownBranch, h.owner, hothers.clone]

omit [DecidableEq ι] [DecidableEq π] in
theorem Synced.ownBranch_subset {id : Str} (h : Synced N i names remote summary id w w₁)
    (hothers : Others N i mine w₁ w') : history (w'.ownBranch N id) ⊆
      history ((w'.place (N.remote i remote.name)).lookup (deviceBranchName id)) := by
  rw [h.ownBranch_eq hothers, ← h.published]
  exact hothers.remote i remote.name id

/-- A job of the first device succeeds, and then one of the second. -/
def exampleDone (job job' : Job) : Option (World Bool Bool × Done × World Bool Bool × Done) :=
  (job.steps exampleNetwork false 20 exampleWorld).bind fun r =>
    (job'.steps exampleNetwork true 20 r.2).bind fun r' =>
      (done? r.1).bind fun done => (done? r'.1).map fun done' => (r.2, done, r'.2, done')

theorem steps_of_exampleDone {job job' : Job} {w w' : World Bool Bool} {done done' : Done}
    (h : exampleDone job job' = some (w, done, w', done')) :
    job.steps exampleNetwork false 20 exampleWorld = some (.pure (.ok done), w) ∧
      job'.steps exampleNetwork true 20 w = some (.pure (.ok done'), w') := by
  obtain ⟨⟨p, w⟩, hfirst, h⟩ := Option.bind_eq_some_iff.1 h
  obtain ⟨⟨p', w'⟩, hsecond, h⟩ := Option.bind_eq_some_iff.1 h
  obtain ⟨done, hp, h⟩ := Option.bind_eq_some_iff.1 h
  obtain ⟨done', hp', h⟩ := Option.map_eq_some_iff.1 h
  cases h
  obtain rfl : p = .pure (.ok done) := eq_of_done? hp
  obtain rfl : p' = .pure (.ok done') := eq_of_done? hp'
  exact ⟨hfirst, hsecond⟩

/-- A job of each of the two devices is about to start. -/
def exampleThreads (job job' : Job) : ℕ → Option (Bool × Program Cmd.Reply (Except Str Done))
  | 0 => some (false, job.program.run)
  | 1 => some (true, job'.program.run)
  | _ => none

/-- The first device has nothing to merge. -/
def exampleFirst : SyncSummary := ⟨"origin".toList, [], "sync/a".toList, []⟩

/-- The second device merges the branch of the first, and reports its commit. -/
def exampleSecond : SyncSummary :=
  ⟨"origin".toList, ["origin/sync/a".toList], "sync/b".toList, ["0 ".toList]⟩

theorem exists_exampleDone : ∃ w w', exampleDone exampleSyncJob exampleSyncJob =
    some (w, .synced exampleFirst, w', .synced exampleSecond) := by
  obtain ⟨⟨w, done, w', done'⟩, h, hdone⟩ := (Option.any_eq_true _ _).1 (by decide +kernel :
    ((exampleDone exampleSyncJob exampleSyncJob).any fun r => decide (r.2.1 = .synced exampleFirst) &&
      decide (r.2.2.2 = .synced exampleSecond)) = true)
  obtain ⟨hfirst, hsecond⟩ := (Bool.and_eq_true _ _).mp hdone
  obtain rfl : done = _ := of_decide_eq_true hfirst
  obtain rfl : done' = _ := of_decide_eq_true hsecond
  exact ⟨w, w', h⟩

/-- **A sync brings every branch** that the remote had of another device when it started, and leaves its
own there. -/
theorem sync_delivers (h : JobRun N mine d ls d' t i (.sync names remote) (.synced summary)) :
    ∃ id, N.owner id = i ∧ summary.pushedBranch = deviceBranchName id ∧
      (∀ other ≠ id, trim (remote.branchOf other) = remote.branchOf other →
        history ((d.state.place (N.remote i remote.name)).lookup (deviceBranchName other)) ⊆
          history (d'.state.ownBranch N id)) ∧
      history (d'.state.ownBranch N id) ⊆
        history ((d'.state.place (N.remote i remote.name)).lookup (deviceBranchName id)) := by
  obtain ⟨id, w, hsynced, hothers⟩ := h.synced
  refine ⟨id, hsynced.owner, hsynced.pushedBranch, fun other hother htrim => ?_,
    hsynced.ownBranch_subset hothers⟩
  rw [hsynced.ownBranch_eq hothers]
  exact hsynced.delivers hother htrim

/-- The second device has what the first pushed. -/
theorem sync_delivers_exampleSyncJob : ∃ w w', exampleDone exampleSyncJob exampleSyncJob =
      some (w, .synced exampleFirst, w', .synced exampleSecond) ∧
    ∃ id, exampleSecond.pushedBranch = deviceBranchName id ∧
      history ((w.place false).lookup "sync/a".toList) ⊆
        history (w'.ownBranch exampleNetwork id) := by
  obtain ⟨w, w', h⟩ := exists_exampleDone
  obtain ⟨ls, hrun⟩ := exists_jobRun_of_steps (steps_of_exampleDone h).2
    (exampleThreads exampleSyncJob exampleSyncJob) 1 rfl ∅
  obtain ⟨id, howner, hbranch, hdelivers, -⟩ := sync_delivers hrun
  refine ⟨w, w', h, id, hbranch, hdelivers "a".toList ?_ (by decide)⟩
  rintro rfl
  exact absurd howner (by decide)

/-- **What one device synced, another has after its next sync** with the same remote, whatever happens
between the two. -/
theorem sync_passes_on
    (hfirst : JobRun N mine d ls d₁ t j (.sync names remote) (.synced summary))
    (hbetween : d₁.Run N ls₁ d₂)
    (hthen : JobRun N mine' d₂ ls₂ d' u i (.sync names' remote') (.synced summary'))
    (hij : i ≠ j) (hremote : N.remote i remote'.name = N.remote j remote.name) :
    ∃ id id', summary.pushedBranch = deviceBranchName id ∧
      summary'.pushedBranch = deviceBranchName id' ∧
      (trim (remote'.branchOf id) = remote'.branchOf id →
        history (d₁.state.ownBranch N id) ⊆ history (d'.state.ownBranch N id')) := by
  obtain ⟨id, w, hsynced, hothers⟩ := hfirst.synced
  obtain ⟨id', w', hsynced', hothers'⟩ := hthen.synced
  refine ⟨id, id', hsynced.pushedBranch, hsynced'.pushedBranch, fun htrim => ?_⟩
  have hne : id ≠ id' := by
    rintro rfl
    exact hij (hsynced'.owner.symm.trans hsynced.owner)
  rw [hsynced'.ownBranch_eq hothers']
  calc history (d₁.state.ownBranch N id)
      ⊆ history ((d₁.state.place (N.remote j remote.name)).lookup (deviceBranchName id)) :=
        hsynced.ownBranch_subset hothers
    _ ⊆ history ((d₂.state.place (N.remote j remote.name)).lookup (deviceBranchName id)) :=
        hbetween.remote_subset _ _
    _ ⊆ history ((w'.clone i).branches.tip (deviceBranchName id')) := by
        rw [← hremote]
        exact hsynced'.delivers hne htrim

/-- The second device has the branch of the first after both synced. -/
theorem sync_passes_on_exampleSyncJob : ∃ w w', exampleDone exampleSyncJob exampleSyncJob =
      some (w, .synced exampleFirst, w', .synced exampleSecond) ∧
    ∃ id id', exampleFirst.pushedBranch = deviceBranchName id ∧
      exampleSecond.pushedBranch = deviceBranchName id' ∧
      (trim (exampleRemote.branchOf id) = exampleRemote.branchOf id →
        history (w.ownBranch exampleNetwork id) ⊆ history (w'.ownBranch exampleNetwork id')) := by
  obtain ⟨w, w', h⟩ := exists_exampleDone
  obtain ⟨hfirst, hsecond⟩ := steps_of_exampleDone h
  obtain ⟨ls, hrun⟩ :=
    exists_jobRun_of_steps hfirst (exampleThreads exampleSyncJob exampleSyncJob) 0 rfl ∅
  obtain ⟨ls', hrun'⟩ := exists_jobRun_of_steps hsecond _ 1
    (Function.update_of_ne one_ne_zero _ (exampleThreads exampleSyncJob exampleSyncJob)) ∅
  exact ⟨w, w', h, sync_passes_on hrun (.nil _) hrun' nofun rfl⟩

/-- **No unsigned commit comes in without being reported**, and what is reported came in with a branch
that was merged. -/
theorem sync_reports (h : JobRun N mine d ls d' t i (.sync names remote) (.synced summary)) :
    ∃ id, N.owner id = i ∧ summary.pushedBranch = deviceBranchName id ∧
      (∀ x ∈ history (d'.state.ownBranch N id), x ∉ history ((d.state.clone i).branches.base id) →
        NoMerge x = true → NotSigned x = true → names.entry x ∈ summary.unsignedOrUnknown) ∧
      ∀ entry ∈ summary.unsignedOrUnknown, ∃ x, entry = names.entry x ∧ NoMerge x = true ∧
        x ∉ history ((d.state.clone i).branches.base id) ∧
        ∃ ref ∈ summary.merged, x ∈ history ((d'.state.clone i).revParse ref) := by
  obtain ⟨id, w, hsynced, hothers⟩ := h.synced
  refine ⟨id, hsynced.owner, hsynced.pushedBranch, ?_, fun entry hentry => ?_⟩
  · rw [World.ownBranch, hsynced.owner, hothers.clone]
    exact hsynced.flagged
  · obtain ⟨x, hx, hold, hmerge, rfl⟩ := hsynced.flags entry hentry
    refine ⟨x, rfl, hmerge, hold, ?_⟩
    rw [hothers.clone]
    rcases hsynced.made x hx with hx | hx | hx
    · exact absurd hx hold
    · exact hx
    · exact absurd (of_decide_eq_true hmerge) (Nat.not_le.2 hx)

/-- The commit of the first device, which nobody signed, is reported by the second. -/
theorem sync_reports_exampleSyncJob : ∃ w w', exampleDone exampleSyncJob exampleSyncJob =
      some (w, .synced exampleFirst, w', .synced exampleSecond) ∧
    ∀ entry ∈ exampleSecond.unsignedOrUnknown, ∃ x, entry = exampleNaming.entry x ∧
      NoMerge x = true ∧
      ∃ ref ∈ exampleSecond.merged, x ∈ history ((w'.clone true).revParse ref) := by
  obtain ⟨w, w', h⟩ := exists_exampleDone
  obtain ⟨ls, hrun⟩ := exists_jobRun_of_steps (steps_of_exampleDone h).2
    (exampleThreads exampleSyncJob exampleSyncJob) 1 rfl ∅
  obtain ⟨id, -, -, -, hflags⟩ := sync_reports hrun
  refine ⟨w, w', h, fun entry hentry => ?_⟩
  obtain ⟨x, hx, hmerge, -, href⟩ := hflags entry hentry
  exact ⟨x, hx, hmerge, href⟩

end Cli

end Wkp
