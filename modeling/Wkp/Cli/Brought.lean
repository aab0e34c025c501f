import Wkp.Cli.RunSync

/-!
# What a sync does to its clone

The commands of a sync on the clone of its device, one after another, when they succeed.

* `Cli.OnClone` : a command, as the clone sees it.
* `Cli.Brings` : what merging some branches does to a clone; `Cli.brings_mergeAll`.
* `Cli.flags_flagUnsigned` : the commits that are reported.
-/

namespace Wkp

open Rust Git Program

namespace Cli

/-- A command, as the clone of its device sees it. -/
def OnClone (c : Clone) (e : Exchange Cmd.Reply) (c' : Clone) : Prop :=
  ∃ (choices : Choices) (heads : Refs), choices.Sensible (c, heads) e.1 ∧
    (answer choices (c, heads) e.1).1 = e.2 ∧ (answer choices (c, heads) e.1).2.1 = c'

variable {c c₁ c' : Clone} {refs : List Str} {ref : Str}

theorem ends_run {σ : Type} {exec : σ → Exchange Cmd.Reply → σ → Prop} {cmd : Cmd}
    {r : cmd.Reply} {s s' : σ} : Program.Ends exec (run cmd).run s r s' ↔ exec s ⟨cmd, r⟩ s' :=
  ends_perform

/-! ### The commands -/

theorem Choices.unless_eq_ok {α : Type} {e : Choices} {s : Clone × Refs}
    {next : Except Str α × Clone × Refs} {a : α} (h : (e.unless s next).1 = .ok a) :
    next.1 = .ok a ∧ (e.unless s next).2 = next.2 := by
  rw [Choices.unless] at h ⊢
  cases hfault : e.fault with
  | some error => rw [hfault] at h; cases h
  | none => rw [hfault] at h; exact ⟨h, rfl⟩

theorem onBranches_eq_ok {α : Type} {m : Effect Branches Str α} {s : Clone × Refs} {a : α}
    (h : (onBranches m s).1 = .ok a) : ∃ branches, Effect.exec m s.1.branches = (.ok a, branches) ∧
      (onBranches m s).2 = ({ s.1 with branches }, s.2) :=
  ⟨_, Prod.ext h rfl, rfl⟩

theorem onRepo_eq_ok {α : Type} {m : Effect Repo Str α} {s : Clone × Refs} {a : α}
    (h : (onBranches (onRepo m) s).1 = .ok a) : ∃ r, Effect.exec m s.1.branches.repo = (.ok a, r) ∧
      (onBranches (onRepo m) s).2 =
        ({ s.1 with branches := { s.1.branches with repo := r } }, s.2) := by
  obtain ⟨branches, hexec, hs⟩ := onBranches_eq_ok h
  obtain ⟨r, hr, rfl⟩ := exec_onRepo_eq_ok hexec
  exact ⟨r, hr, hs⟩

theorem OnClone.currentCommit {tip : Commit} (h : OnClone c ⟨.currentCommit, .ok tip⟩ c') :
    c' = c ∧ c.branches.repo.head = some tip := by
  obtain ⟨e, heads, -, hok, hclone⟩ := h
  rw [answer] at hok hclone
  obtain ⟨hok, hs⟩ := Choices.unless_eq_ok hok
  rw [hs] at hclone
  cases hhead : c.branches.repo.head with
  | none => rw [hhead] at hok; cases hok
  | some commit =>
    rw [hhead] at hok hclone
    exact ⟨hclone.symm, congrArg some (Except.ok.inj hok)⟩

theorem OnClone.remoteBranchExists {remote : RemoteName} {name : Str} {b : Bool}
    (h : OnClone c ⟨.remoteBranchExists remote name, .ok b⟩ c') :
    c' = c ∧ (b = true → (c.remotes.lookup (trackingName remote.name name)).isSome) := by
  obtain ⟨e, heads, -, hok, hclone⟩ := h
  refine ⟨hclone.symm, ?_⟩
  rintro rfl
  exact ((Bool.and_eq_true _ _).mp (Except.ok.inj hok)).2

theorem OnClone.forEachRef {start : Str} {printed : List Str}
    (h : OnClone c ⟨.forEachRef start, .ok printed⟩ c') : c' = c ∧ printed = c.forEachRef start := by
  obtain ⟨e, heads, -, hok, hclone⟩ := h
  rw [answer] at hok hclone
  obtain ⟨hok, hs⟩ := Choices.unless_eq_ok hok
  rw [hs] at hclone
  exact ⟨hclone.symm, (Except.ok.inj hok).symm⟩

theorem OnClone.commitsBetween {since : Commit} {until_ : Str} {commits : List Commit}
    (h : OnClone c ⟨.commitsBetween since until_, .ok commits⟩ c') :
    c' = c ∧ ∀ x, x ∈ commits ↔
      x ∈ history (c.branches.tip until_) ∧ ¬ History.IsAncestor x since := by
  obtain ⟨e, heads, hsensible, hok, hclone⟩ := h
  rw [answer] at hok hclone
  obtain ⟨hok, hs⟩ := Choices.unless_eq_ok hok
  rw [hs] at hclone
  exact ⟨hclone.symm, Except.ok.inj hok ▸ hsensible⟩

theorem OnClone.isMergeCommit {commit : Commit} {b : Bool}
    (h : OnClone c ⟨.isMergeCommit commit, .ok b⟩ c') :
    c' = c ∧ b = decide (1 < commit.parents.length) := by
  obtain ⟨e, heads, -, hok, hclone⟩ := h
  rw [answer] at hok hclone
  obtain ⟨hok, hs⟩ := Choices.unless_eq_ok hok
  rw [hs] at hclone
  exact ⟨hclone.symm, (Except.ok.inj hok).symm⟩

theorem OnClone.signerForCommit {commit : Commit} {signer : Option (Str × SignerRole)}
    (h : OnClone c ⟨.signerForCommit commit, .ok signer⟩ c') :
    c' = c ∧ (signer = none ∨ signer = parseSignerLine (printSigner (some commit))) := by
  obtain ⟨e, heads, -, hok, hclone⟩ := h
  refine ⟨hclone.symm, ?_⟩
  rw [← Except.ok.inj hok]
  cases e.fault with
  | some error => exact .inl rfl
  | none => exact .inr rfl

theorem OnClone.deviceId {id : Str} (h : OnClone c ⟨.deviceId, .ok id⟩ c') :
    c'.remotes = c.remotes ∧ ∀ id, c'.branches.base id = c.branches.base id := by
  obtain ⟨e, heads, -, hok, rfl⟩ := h
  obtain ⟨r, hexec, hs⟩ := onRepo_eq_ok hok
  have hhead : r.head = c.branches.repo.head := by
    have := keeps_head_deviceId (H := e.host) (· = c.branches.repo.head) e.generated _ rfl
    rwa [hexec] at this
  rw [answer, hs]
  refine ⟨rfl, fun id => ?_⟩
  rw [Branches.base, Branches.base, Branches.tip, Branches.tip, hhead]

/-- The branch of the device is there afterwards, at `HEAD` if it was not. -/
theorem OnClone.ensureDeviceBranch {id : Str} {u : Unit}
    (h : OnClone c ⟨.ensureDeviceBranch id, .ok u⟩ c') : c'.remotes = c.remotes ∧
      c'.branches.tip (deviceBranchName id) = c.branches.base id := by
  obtain ⟨e, heads, -, hok, rfl⟩ := h
  obtain ⟨branches, hexec, hs⟩ := onBranches_eq_ok (m := Git.ensureDeviceBranch e.host id) hok
  rw [answer, hs]
  refine ⟨rfl, ?_⟩
  cases hhead : c.branches.repo.head with
  | some c₀ => exact (exec_ensureDeviceBranch_eq_ok hhead hexec).2.2.1
  | none =>
    rw [Branches.base, hhead, Option.or_none]
    rw [Git.ensureDeviceBranch, Effect.exec_get_bind] at hexec
    split_ifs at hexec
    · cases hexec
      rfl
    · -- no branch can be made without a commit
      rw [Effect.exec_attempt_bind_eq_ok, hhead] at hexec
      cases hexec.2

/-- A branch that was checked out is `HEAD`, and no merge is unfinished. -/
theorem OnClone.checkoutBranch {name : Str} {u : Unit}
    (h : OnClone c ⟨.checkoutBranch name, .ok u⟩ c') :
    c'.remotes = c.remotes ∧ c'.branches.headRef = .branch name ∧
      c'.branches.repo.head = c.branches.tip name ∧ c'.branches.repo.head.isSome ∧
      c'.branches.repo.mergeHead = none := by
  obtain ⟨e, heads, -, hok, rfl⟩ := h
  obtain ⟨branches, hexec, hs⟩ := onBranches_eq_ok hok
  obtain ⟨headRef, commit, hfind, rfl⟩ := exec_checkout_eq_ok hexec
  obtain ⟨d, hd, hfound⟩ := Option.map_eq_some_iff.1 hfind
  obtain ⟨rfl, rfl⟩ := Prod.mk.inj hfound
  rw [answer, hs]
  exact ⟨rfl, rfl, hd.symm, rfl, rfl⟩

/-- The branch of the device is checked out: it has what it had, or what `HEAD` had before it was
made. -/
theorem ends_checkoutOwnBranch {id : Str}
    (h : Program.Ends OnClone checkoutOwnBranch.run c (.ok id) c') :
    c'.remotes = c.remotes ∧ c'.branches.headRef = .branch (deviceBranchName id) ∧
      c'.branches.repo.head = c.branches.base id ∧ c'.branches.repo.head.isSome ∧
      c'.branches.repo.mergeHead = none := by
  obtain ⟨id', c₁, hid, h⟩ := Script.ends_bind.1 h
  obtain ⟨u, c₂, hensure, h⟩ := Script.ends_bind.1 h
  obtain ⟨v, c₃, hcheckout, h⟩ := Script.ends_bind.1 h
  obtain ⟨rfl, rfl⟩ := Script.ends_pure.1 h
  obtain ⟨hremotes₁, hbase⟩ := (ends_run.1 hid).deviceId
  obtain ⟨hremotes₂, htip⟩ := (ends_run.1 hensure).ensureDeviceBranch
  obtain ⟨hremotes₃, href, hhead, hstate⟩ := (ends_run.1 hcheckout).checkoutBranch
  exact ⟨hremotes₃.trans (hremotes₂.trans hremotes₁), href, hhead.trans (htip.trans (hbase id')),
    hstate⟩

/-! ### One merge -/

/-- What merging some branches does to a clone. -/
structure Brings (refs : List Str) (c c' : Clone) : Prop where
  /-- No branch is fetched. -/
  remotes : c'.remotes = c.remotes
  /-- The same branch is checked out. -/
  headRef : c'.branches.headRef = c.branches.headRef
  /-- No merge is left unfinished. -/
  mergeHead : c'.branches.repo.mergeHead = none
  /-- Every branch is there. -/
  found : ∀ ref ∈ refs, (c.revParse ref).isSome
  /-- `HEAD` has what it had. -/
  keeps : history c.branches.repo.head ⊆ history c'.branches.repo.head
  /-- It has every branch. -/
  merges : ∀ ref ∈ refs, history (c.revParse ref) ⊆ history c'.branches.repo.head
  /-- Else it has merges only. -/
  made : ∀ x ∈ history c'.branches.repo.head, x ∈ history c.branches.repo.head ∨
    (∃ ref ∈ refs, x ∈ history (c.revParse ref)) ∨ 1 < x.parents.length

theorem Brings.nil (h : c.branches.repo.mergeHead = none) : Brings [] c c :=
  ⟨rfl, rfl, h, nofun, subset_rfl, nofun, fun _ => .inl⟩

theorem Brings.cons (h : Brings [ref] c c₁) (h' : Brings refs c₁ c') : Brings (ref :: refs) c c' := by
  have hparse : ∀ r, c₁.revParse r = c.revParse r := fun r => by
    rw [Clone.revParse, h.remotes, Clone.revParse]
  refine ⟨h'.remotes.trans h.remotes, h'.headRef.trans h.headRef, h'.mergeHead, ?_,
    h.keeps.trans h'.keeps, ?_, fun x hx => ?_⟩
  · exact List.forall_mem_cons.2
      ⟨h.found ref List.mem_cons_self, fun r hr => hparse r ▸ h'.found r hr⟩
  · exact List.forall_mem_cons.2 ⟨(h.merges ref List.mem_cons_self).trans h'.keeps,
      fun r hr => hparse r ▸ h'.merges r hr⟩
  · rcases h'.made x hx with hx | ⟨r, hr, hx⟩ | hx
    · refine (h.made x hx).imp_right (Or.imp_left ?_)
      rintro ⟨r, hr, hx⟩
      exact ⟨r, List.mem_singleton.1 hr ▸ List.mem_cons_self, hx⟩
    · exact .inr (.inl ⟨r, List.mem_cons_of_mem _ hr, hparse r ▸ hx⟩)
    · exact .inr (.inr hx)

theorem exec_finishMerge_eq_ok {r r' : Repo} {u : Unit}
    (h : Effect.exec finishMerge r = (.ok u, r')) : ∃ theirs tree, r.mergeHead = some theirs ∧
      r'.mergeHead = none ∧ r'.head = some (mergeCommit r.head tree theirs) := by
  rw [finishMerge, Effect.exec_get_bind] at h
  split_ifs at h
  · cases h
  · cases htheirs : r.mergeHead with
    | none => rw [htheirs] at h; cases h
    | some theirs =>
      rw [htheirs] at h
      cases h
      exact ⟨theirs, r.indexTree, rfl, rfl, rfl⟩

/-- What a merge makes of `HEAD`, in the three ways that git goes about it. -/
theorem Brings.of_head {commit : Commit} (hremotes : c'.remotes = c.remotes)
    (headRef : c'.branches.headRef = c.branches.headRef)
    (mergeHead : c'.branches.repo.mergeHead = none) (hcommit : c.revParse ref = some commit)
    (hhead : c.branches.repo.head.isSome)
    (h : commit ∈ history c.branches.repo.head ∧ c'.branches.repo.head = c.branches.repo.head ∨
      (∀ x ∈ c.branches.repo.head, History.IsAncestor x commit) ∧
        c'.branches.repo.head = some commit ∨
      ∃ tree, c'.branches.repo.head = some (mergeCommit c.branches.repo.head tree commit)) :
    Brings [ref] c c' := by
  obtain ⟨ours, hours⟩ := Option.isSome_iff_exists.1 hhead
  suffices hnew : history c.branches.repo.head ⊆ history c'.branches.repo.head ∧
      history (some commit) ⊆ history c'.branches.repo.head ∧
      ∀ x ∈ history c'.branches.repo.head, x ∈ history c.branches.repo.head ∨
        x ∈ history (some commit) ∨ 1 < x.parents.length by
    refine ⟨hremotes, headRef, mergeHead, ?_, hnew.1, ?_, ?_⟩
    · simp [hcommit]
    · simpa [hcommit] using hnew.2.1
    · simpa [hcommit] using hnew.2.2
  rcases h with ⟨⟨t, ht, hin⟩, hsame⟩ | ⟨hall, hforward⟩ | ⟨tree, hmerge⟩
  · rw [hsame]
    refine ⟨subset_rfl, fun x hx => ⟨t, ht, (mem_history_some.1 hx).trans hin⟩, fun x => .inl⟩
  · rw [hforward]
    exact ⟨history_subset_iff.2 hall, subset_rfl, fun x hx => .inr (.inl hx)⟩
  · rw [hmerge]
    refine ⟨fun x hx => inHead_mergeCommit.2 (.inl hx),
      fun x hx => inHead_mergeCommit.2 (.inr (.inl (mem_history_some.1 hx))), fun x hx => ?_⟩
    rcases inHead_mergeCommit.1 hx with hx | hx | rfl
    · exact .inl hx
    · exact .inr (.inl (mem_history_some.2 hx))
    · exact .inr (.inr (by rw [hours]; exact Nat.one_lt_two))

theorem OnClone.mergeBranch {clean : Bool} (hnone : c.branches.repo.mergeHead = none)
    (hhead : c.branches.repo.head.isSome) (h : OnClone c ⟨.mergeBranch ref, .ok clean⟩ c') :
    clean = true ∧ Brings [ref] c c' ∨
      clean = false ∧ c'.remotes = c.remotes ∧ c'.branches.headRef = c.branches.headRef ∧
        c'.branches.repo.head = c.branches.repo.head ∧
        ∀ theirs ∈ c'.branches.repo.mergeHead, c.revParse ref = some theirs := by
  obtain ⟨e, heads, hsensible, hok, hclone⟩ := h
  rw [answer] at hok hclone
  obtain ⟨hok, hs⟩ := Choices.unless_eq_ok hok
  rw [hs] at hclone
  cases hparse : c.revParse ref with
  | none =>
    rw [hparse] at hok hclone
    obtain rfl := hclone
    refine .inr ⟨(Except.ok.inj hok).symm, rfl, rfl, rfl, fun theirs ht => ?_⟩
    rw [hnone] at ht
    cases ht
  | some commit =>
    rw [hparse] at hok hclone
    have hfits := hsensible commit hparse
    obtain ⟨r, hexec, hs⟩ := onRepo_eq_ok hok
    dsimp only at hclone
    rw [hs] at hclone
    subst hclone
    rcases exec_mergeBranch_eq_ok _ _ hexec with ⟨rfl, rfl | ⟨-, hpending, hsame⟩⟩ |
      ⟨rfl, -, hnone', hkind⟩
    · refine .inr ⟨rfl, rfl, rfl, rfl, fun theirs ht => ?_⟩
      rw [hnone] at ht
      cases ht
    · exact .inr ⟨rfl, rfl, rfl, hsame, fun theirs ht => hpending.symm.trans ht⟩
    · refine .inl ⟨rfl, .of_head rfl rfl hnone' hparse hhead ?_⟩
      rcases hkind with ⟨hk, hsame⟩ | ⟨hk, hforward⟩ | hmerge
      · exact .inl ⟨hfits.upToDate hk, hsame⟩
      · exact .inr (.inl ⟨hfits.fastForward hk, hforward⟩)
      · exact .inr (.inr hmerge)

theorem OnClone.resolveModifyDeleteConflicts {u : Unit}
    (h : OnClone c ⟨.resolveModifyDeleteConflicts, .ok u⟩ c') : c'.remotes = c.remotes ∧
      c'.branches.headRef = c.branches.headRef ∧
      SameHead c.branches.repo c'.branches.repo := by
  obtain ⟨e, heads, -, hok, rfl⟩ := h
  obtain ⟨r, hexec, hs⟩ := onRepo_eq_ok hok
  rw [answer, hs]
  refine ⟨rfl, rfl, ?_⟩
  obtain ⟨notes, r', hresolve, hr⟩ := Effect.exec_bind_eq_ok.1 hexec
  cases hr
  have hsame := keeps_sameHead_resolve (T := e.tables) (F := e.host.filters) (V := e.view) e.clock
    c.branches.repo ⟨rfl, rfl⟩
  rwa [hresolve] at hsame

theorem OnClone.finishMerge {u : Unit} (h : OnClone c ⟨.finishMerge, .ok u⟩ c') :
    c'.remotes = c.remotes ∧ c'.branches.headRef = c.branches.headRef ∧
      ∃ theirs tree, c.branches.repo.mergeHead = some theirs ∧ c'.branches.repo.mergeHead = none ∧
        c'.branches.repo.head = some (mergeCommit c.branches.repo.head tree theirs) := by
  obtain ⟨e, heads, -, hok, hclone⟩ := h
  rw [answer] at hok hclone
  obtain ⟨hok, hs⟩ := Choices.unless_eq_ok hok
  rw [hs] at hclone
  obtain ⟨r, hexec, hs⟩ := onRepo_eq_ok hok
  rw [hs] at hclone
  subst hclone
  exact ⟨rfl, rfl, exec_finishMerge_eq_ok hexec⟩

/-! ### All merges -/

/-- A merge that succeeds, whether git completed it or the conflicts were resolved, brings the branch
into `HEAD`. -/
theorem brings_mergeOne {merged : Str} (hnone : c.branches.repo.mergeHead = none)
    (hhead : c.branches.repo.head.isSome)
    (h : Program.Ends OnClone (mergeOne ref).run c (.ok merged) c') :
    merged = ref ∧ Brings [ref] c c' := by
  obtain ⟨clean, c₁, hmerge, h⟩ := Script.ends_bind.1 h
  rcases (ends_run.1 hmerge).mergeBranch hnone hhead with
    ⟨rfl, hbrings⟩ | ⟨rfl, hremotes, href, hsame, htheirs⟩
  · rw [if_pos rfl, Script.ends_pure] at h
    obtain ⟨rfl, rfl⟩ := h
    exact ⟨rfl, hbrings⟩
  · rw [if_neg Bool.false_ne_true] at h
    obtain ⟨u, c₂, hresolve, h⟩ := Script.ends_bind.1 h
    obtain ⟨v, c₃, hfinish, h⟩ := Script.ends_bind.1 h
    obtain ⟨rfl, rfl⟩ := Script.ends_pure.1 h
    obtain ⟨hremotes₂, href₂, hhead₂, hpending₂⟩ :=
      (ends_run.1 hresolve).resolveModifyDeleteConflicts
    obtain ⟨hremotes₃, href₃, theirs, tree, hpending, hnone', hhead'⟩ := (ends_run.1 hfinish).finishMerge
    refine ⟨rfl, .of_head (hremotes₃.trans (hremotes₂.trans hremotes))
      (href₃.trans (href₂.trans href)) hnone' (htheirs theirs ?_) hhead (.inr (.inr ⟨tree, ?_⟩))⟩
    · exact hpending₂ ▸ hpending
    · rw [hhead', hhead₂, hsame]

/-- **Merging branches brings each of them into `HEAD`**, and nothing else but merges. -/
theorem brings_mergeAll {merged : List Str} (hnone : c.branches.repo.mergeHead = none)
    (hhead : c.branches.repo.head.isSome)
    (h : Program.Ends OnClone (mergeAll refs).run c (.ok merged) c') :
    merged = refs ∧ Brings refs c c' := by
  induction refs generalizing c merged with
  | nil =>
    obtain ⟨rfl, rfl⟩ := Script.ends_pure.1 h
    exact ⟨rfl, .nil hnone⟩
  | cons ref refs ih =>
    obtain ⟨m, c₁, hone, h⟩ := Script.ends_bind.1 h
    obtain ⟨rest, c₂, hall, h⟩ := Script.ends_bind.1 h
    obtain ⟨rfl, rfl⟩ := Script.ends_pure.1 h
    obtain ⟨rfl, hone⟩ := brings_mergeOne hnone hhead hone
    have hhead₁ : c₁.branches.repo.head.isSome := by
      obtain ⟨ours, hours⟩ := Option.isSome_iff_exists.1 hhead
      obtain ⟨t, ht, -⟩ := hone.keeps ⟨ours, hours, .refl ours⟩
      exact Option.isSome_of_mem ht
    obtain ⟨rfl, hall⟩ := ih hone.mergeHead hhead₁ hall
    exact ⟨rfl, hone.cons hall⟩

/-! ### The report -/

/-- Nobody who is known has signed the commit. -/
def NotSigned (x : Commit) : Bool := (parseSignerLine (printSigner (some x))).isNone

/-- The commit is no merge. -/
def NoMerge (x : Commit) : Bool := x.parents.length ≤ 1

/-- Every commit of the list that is not signed is reported, and only commits of the list are; merges
are not. -/
theorem flags_flagUnsigned {names : Naming} {cs : List Commit} {entries : List Str}
    (h : Program.Ends OnClone (flagUnsigned names cs).run c (.ok entries) c') : c' = c ∧
      ((cs.filter fun x => NoMerge x && NotSigned x).map names.entry).Sublist entries ∧
      entries.Sublist ((cs.filter NoMerge).map names.entry) := by
  induction cs generalizing c c' entries with
  | nil =>
    obtain ⟨rfl, rfl⟩ := Script.ends_pure.1 h
    exact ⟨rfl, .slnil, .slnil⟩
  | cons x cs ih =>
    obtain ⟨isMerge, c₁, hmerge, h⟩ := Script.ends_bind.1 h
    obtain ⟨rfl, rfl⟩ := (ends_run.1 hmerge).isMergeCommit
    by_cases hx : 1 < x.parents.length
    · have hno : NoMerge x = false := decide_eq_false (Nat.not_le.2 hx)
      rw [decide_eq_true hx, if_pos rfl] at h
      simpa [hno] using ih h
    · have hno : NoMerge x = true := decide_eq_true (Nat.not_lt.1 hx)
      rw [decide_eq_false hx, if_neg Bool.false_ne_true] at h
      obtain ⟨signer, c₂, hrun, h₂⟩ := Script.ends_bind.1 h
      obtain ⟨rfl, hsigner⟩ := (ends_run.1 hrun).signerForCommit
      obtain ⟨rest, c₃, hrest, h₃⟩ := Script.ends_bind.1 h₂
      obtain ⟨rfl, hlow, hhigh⟩ := ih hrest
      split_ifs at h₃ with hnobody
      · obtain ⟨rfl, rfl⟩ := Script.ends_pure.1 h₃
        refine ⟨rfl, ?_, by simpa [hno] using hhigh⟩
        cases hsigned : NotSigned x with
        | true => simpa [hno, hsigned] using hlow
        | false => simpa [hno, hsigned] using hlow.cons _
      · obtain ⟨rfl, rfl⟩ := Script.ends_pure.1 h₃
        have hsigned : NotSigned x = false := by
          rcases hsigner with rfl | rfl
          · exact absurd rfl hnobody
          · exact Bool.eq_false_iff.2 hnobody
        refine ⟨rfl, by simpa [hno, hsigned] using hlow, ?_⟩
        rw [List.filter_cons_of_pos hno, List.map_cons]
        exact hhigh.cons _

end Cli

end Wkp
