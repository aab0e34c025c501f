import Mathlib.Data.Set.Basic
import Mathlib.Order.BooleanAlgebra.Set
import Wkp.Git.DeviceBranch
import Wkp.Git.Remote

/-!
# Clones

A repository together with the branches that it fetched, and what moves branches between clones.

* `Git.history` : the commits that a branch has.
* `Git.Clone` : a clone; `Git.Clone.fetch`, `Git.Clone.bundleFetch`, `Git.push`, `Git.bundleCreate` :
  what goes in and out.
* `Git.otherDeviceSyncRefs`, `Git.refsMatching` : the branches to merge.
* `Git.Branches.Grows` : no branch loses a commit; `Git.Growing` : a command that sees to it.
* `Git.growing_commitToDeviceBranch` : committing to the branch of the device is one.
-/

namespace Wkp

open Rust

namespace Git

/-! ### The commits of a branch -/

/-- Commits, by the names of their branches. -/
abbrev Refs := AList fun _ : Str => Commit

/-- The commits that a branch has: its own, and all before it. -/
def history (tip : Option Commit) : Set Commit := {c | ∃ t ∈ tip, History.IsAncestor c t}

@[simp] theorem history_none : history none = ∅ := by
  simp [history]

@[simp] theorem mem_history_some {c t : Commit} : c ∈ history (some t) ↔ History.IsAncestor c t := by
  simp [history]

theorem history_subset_iff {old : Option Commit} {new : Commit} :
    history old ⊆ history (some new) ↔ ∀ t ∈ old, History.IsAncestor t new := by
  constructor
  · exact fun h t ht => mem_history_some.1 (h ⟨t, ht, .refl t⟩)
  · rintro h c ⟨t, ht, hc⟩
    exact mem_history_some.2 (hc.trans (h t ht))

/-- The commits that a branch has, the newest first. -/
def commitsOf : Commit → List Commit
  | .root tree label => [.root tree label]
  | .child tree label parent => .child tree label parent :: commitsOf parent
  | .merge tree label first second =>
    .merge tree label first second :: (commitsOf first ++ commitsOf second)

theorem mem_commitsOf {c t : Commit} : c ∈ commitsOf t ↔ History.IsAncestor c t := by
  induction t with
  | root tree label => simp [commitsOf, History.IsAncestor]
  | child tree label parent ih => simp [commitsOf, History.IsAncestor, ih]
  | merge tree label first second ih₁ ih₂ => simp [commitsOf, History.IsAncestor, ih₁, ih₂]

/-! ### The state -/

/-- The name of a remote, a single one. -/
@[ext] structure RemoteName where
  /-- The name. -/
  name : Str
  /-- It is a single name. -/
  single : '/' ∉ name
  deriving DecidableEq

/-- The name of a branch of a remote, below `refs/remotes/`. -/
def trackingName (remote branch : Str) : Str := remote ++ '/' :: branch

/-- The branch of a device on a remote. -/
abbrev RemoteName.branchOf (remote : RemoteName) (id : Str) : Str :=
  trackingName remote.name (deviceBranchName id)

/-- A clone: its branches, and those that it fetched. -/
structure Clone where
  /-- The repository and its branches. -/
  branches : Branches
  /-- The branches that were fetched, by their names below `refs/remotes/`. -/
  remotes : Refs

theorem trackingName_ne_nil (remote b : Str) : trackingName remote b ≠ [] :=
  List.append_ne_nil_of_right_ne_nil _ nofun

theorem trackingName_inj {r r' : RemoteName} {b b' : Str} :
    trackingName r.name b = trackingName r'.name b' ↔ r = r' ∧ b = b' := by
  constructor
  · intro h
    have hsplit := congrArg (splitOnce '/') h
    rw [trackingName, trackingName, splitOnce_append r.single, splitOnce_append r'.single,
      Option.some.injEq, Prod.mk.injEq] at hsplit
    exact ⟨RemoteName.ext hsplit.1, hsplit.2⟩
  · rintro ⟨rfl, rfl⟩
    rfl

/-! ### Fetching and pushing -/

/-- The commit has all that the branch has. -/
def forwards (old : Option Commit) (new : Commit) : Bool :=
  decide (∀ t ∈ old, History.IsAncestor t new)

/-- The branches after some of another place were fetched. -/
def track (accepts : Option Commit → Commit → Bool) (remote : Str) (heads remotes : Refs) : Refs :=
  heads.entries.foldl (fun l e =>
    if accepts (l.lookup (trackingName remote e.1)) e.2 then
      l.insert (trackingName remote e.1) e.2
    else l) remotes

/-- `git fetch remote`, for the refspec `+refs/heads/*:refs/remotes/remote/*`. -/
def Clone.fetch (c : Clone) (remote : RemoteName) (heads : Refs) : Clone :=
  { c with remotes := track (fun _ _ => true) remote.name heads c.remotes }

/-- The name under which the branches of a bundle are fetched. -/
def bundleName : RemoteName := ⟨"bundle".toList, by decide⟩

/-- Every branch of the bundle goes on from the one that was fetched before. -/
def Clone.acceptsAll (c : Clone) (heads : Refs) : Bool :=
  heads.entries.all fun e => forwards (c.remotes.lookup (trackingName bundleName.name e.1)) e.2

/-- `git fetch file refs/heads/*:refs/remotes/bundle/*`: a branch that does not go on from the one
that was fetched before is refused. -/
def Clone.bundleFetch (c : Clone) (heads : Refs) : Except Str Unit × Clone :=
  (if c.acceptsAll heads then .ok () else .error "! [rejected] (non-fast-forward)".toList,
    { c with remotes := track forwards bundleName.name heads c.remotes })

/-- `git push remote name`, which never forces. -/
def push (c : Clone) (name : Str) (heads : Refs) : Except Str Refs :=
  match c.branches.tip name with
  | none => .error "error: src refspec does not match any".toList
  | some new =>
    if forwards (heads.lookup name) new then .ok (heads.insert name new)
    else .error "! [rejected] (non-fast-forward)".toList

/-- The branches that have something that a commit does not have. -/
def Clone.newSince (c : Clone) (since : Option Commit) (names : List Str) : List Str :=
  names.filter fun name => !since.any fun s => forwards (c.branches.tip name) s

/-- `git bundle create`, for `since..name` or for `name`: the branches as they are, without those that
have nothing new. -/
def bundleCreate (c : Clone) (names : List Str) (since : Option Commit) : Except Str Refs :=
  if names.all fun name => (c.branches.tip name).isSome then
    if c.newSince since names = [] then .error "fatal: Refusing to create empty bundle.".toList
    else .ok (Repo.setAll ∅ (c.newSince since names) c.branches.tip)
  else .error "fatal: bad revision".toList

/-! ### The branches that were fetched -/

/-- `git for-each-ref refs/remotes/start`, as the names below `refs/remotes/`. -/
def Clone.forEachRef (c : Clone) (start : Str) : List Str :=
  sortPaths (c.remotes.keys.filter fun name => start.isPrefixOf name)

/-- The lines of `git for-each-ref`, read. -/
def readRefs (keep : Str → Bool) (printed : List Str) : List Str :=
  (printed.map trim).filter fun line => line ≠ [] && keep line

/-- The branches of the other devices on a remote, of those that git prints. -/
def otherDeviceSyncRefs (remote ownDeviceId : Str) (printed : List Str) : List Str :=
  readRefs (fun line => line ≠ trackingName remote (deviceBranchName ownDeviceId)) printed

/-- Where the branches are that were fetched. -/
def refsRemotes : Str := "refs/remotes/".toList

/-- The full name of a branch that was fetched. -/
def fullName (name : Str) : Str := refsRemotes ++ name

/-- Every branch whose full name git prints. -/
def refsMatching (printed : List Str) : List Str := readRefs (fun _ => true) printed

/-- The commit that a name or a full name of a branch that was fetched stands for. -/
def Clone.revParse (c : Clone) (ref : Str) : Option Commit :=
  c.remotes.lookup ((stripPrefix ref refsRemotes).getD ref)

/-! ### What is fetched -/

section Track

variable {accepts : Option Commit → Commit → Bool} {remote : RemoteName} {name : Str}

theorem lookup_foldl_track_of_ne {l : List (Sigma fun _ : Str => Commit)}
    (h : ∀ e ∈ l, trackingName remote.name e.1 ≠ name) (remotes : Refs) :
    (l.foldl (fun l e =>
      if accepts (l.lookup (trackingName remote.name e.1)) e.2 then
        l.insert (trackingName remote.name e.1) e.2
      else l) remotes).lookup name = remotes.lookup name := by
  induction l generalizing remotes with
  | nil => rfl
  | cons e l ih =>
    rw [List.forall_mem_cons] at h
    rw [List.foldl_cons, ih h.2]
    split_ifs
    · exact AList.lookup_insert_ne (Ne.symm h.1)
    · rfl

theorem lookup_track_of_ne {r : RemoteName} (h : r ≠ remote) (heads remotes : Refs) (b : Str) :
    (track accepts remote.name heads remotes).lookup (trackingName r.name b) =
      remotes.lookup (trackingName r.name b) := by
  refine lookup_foldl_track_of_ne (fun e _ he => h ?_) remotes
  exact (trackingName_inj.1 he).1.symm

theorem lookup_track_of_none {heads : Refs} {b : Str} (h : heads.lookup b = none) (remotes : Refs) :
    (track accepts remote.name heads remotes).lookup (trackingName remote.name b) =
      remotes.lookup (trackingName remote.name b) := by
  refine lookup_foldl_track_of_ne (fun e he hname => ?_) remotes
  obtain rfl := (trackingName_inj.1 hname).2
  rw [AList.mem_lookup_iff.2 he] at h
  cases h

theorem lookup_track {heads : Refs} {b : Str} {new : Commit} (h : heads.lookup b = some new)
    (remotes : Refs) : (track accepts remote.name heads remotes).lookup (trackingName remote.name b) =
      if accepts (remotes.lookup (trackingName remote.name b)) new then some new
      else remotes.lookup (trackingName remote.name b) := by
  obtain ⟨l, hl⟩ := heads
  replace h : l.dlookup b = some new := h
  change (l.foldl _ remotes).lookup _ = _
  induction l generalizing remotes with
  | nil => cases h
  | cons e l ih =>
    obtain ⟨b', new'⟩ := e
    rw [List.nodupKeys_cons] at hl
    rw [List.foldl_cons]
    by_cases hb : b = b'
    · subst hb
      rw [List.dlookup_cons_eq] at h
      obtain rfl := Option.some.inj h
      rw [lookup_foldl_track_of_ne]
      · split_ifs
        · exact AList.lookup_insert _
        · rfl
      · intro e he hname
        have hkey := List.mem_keys_of_mem he
        rw [(trackingName_inj.1 hname).2] at hkey
        exact hl.1 hkey
    · rw [List.dlookup_cons_ne _ _ hb] at h
      have hname : trackingName remote.name b ≠ trackingName remote.name b' := fun hname =>
        hb (trackingName_inj.1 hname).2
      rw [ih _ hl.2 h]
      split_ifs <;> simp_all [AList.lookup_insert_ne]

end Track

theorem lookup_fetch {c : Clone} {remote : RemoteName} {heads : Refs} {b : Str} {new : Commit}
    (h : heads.lookup b = some new) :
    (c.fetch remote heads).remotes.lookup (trackingName remote.name b) = some new :=
  (lookup_track h c.remotes).trans (if_pos rfl)

/-! ### What is printed and read -/

theorem mem_readRefs {keep : Str → Bool} {printed : List Str} {ref : Str} :
    ref ∈ readRefs keep printed ↔
      (∃ line ∈ printed, trim line = ref) ∧ ref ≠ [] ∧ keep ref = true := by
  simp [readRefs]

theorem mem_forEachRef {c : Clone} {start name : Str} :
    name ∈ c.forEachRef start ↔ name ∈ c.remotes ∧ start <+: name := by
  rw [Clone.forEachRef, mem_sortPaths, List.mem_filter, AList.mem_keys, List.isPrefixOf_iff_prefix]

theorem deviceBranchName_not_remotes (deviceId : Str) :
    ¬ "remotes/".toList <+: deviceBranchName deviceId := by
  rintro ⟨rest, h⟩
  have hhead : some 'r' = some 's' := congrArg List.head? h
  exact absurd hhead (by decide)

theorem revParse_fullName (c : Clone) (name : Str) :
    c.revParse (fullName name) = c.remotes.lookup name := by
  rw [Clone.revParse, fullName, stripPrefix_append, Option.getD_some]

/-- A short name is not taken for a full one. -/
theorem revParse_trackingName (c : Clone) (remote : RemoteName) {b : Str}
    (hb : ¬ "remotes/".toList <+: b) :
    c.revParse (trackingName remote.name b) = c.remotes.lookup (trackingName remote.name b) := by
  rw [Clone.revParse]
  cases h : stripPrefix (trackingName remote.name b) refsRemotes with
  | none => rfl
  | some rest =>
    have hsplit := congrArg (splitOnce '/') (stripPrefix_eq_some_iff.1 h)
    rw [trackingName, splitOnce_append remote.single] at hsplit
    have hrefs : splitOnce '/' (refsRemotes ++ rest) =
        some ("refs".toList, "remotes/".toList ++ rest) :=
      splitOnce_append (p := "refs".toList) (by decide) _
    rw [hrefs] at hsplit
    exact absurd ⟨rest, (Prod.mk.inj (Option.some.inj hsplit)).2.symm⟩ hb

/-! ### No branch loses a commit -/

namespace Branches

/-- Every branch has what it had. -/
def Grows (s s' : Branches) : Prop := ∀ name, history (s.tip name) ⊆ history (s'.tip name)

@[refl] theorem Grows.refl (s : Branches) : Grows s s := fun _ => subset_rfl

theorem Grows.trans {s₁ s₂ s₃ : Branches} (h₁ : Grows s₁ s₂) (h₂ : Grows s₂ s₃) : Grows s₁ s₃ :=
  fun name => (h₁ name).trans (h₂ name)

theorem Grows.of_tip_eq {s s' : Branches} (h : s'.tip = s.tip) : Grows s s' := fun name => by
  rw [h]

theorem Grows.of_head {s : Branches} {r : Repo} (h : history s.repo.head ⊆ history r.head) :
    Grows s { s with repo := r } := by
  intro name
  rw [tip, tip]
  split_ifs
  · exact h
  · rfl

end Branches

/-- No branch loses a commit to the command. -/
def Growing {α : Type} (m : Effect Branches Str α) : Prop :=
  ∀ s₀, Effect.Keeps (Branches.Grows s₀) m

/-- `HEAD` loses no commit to the command. -/
def HeadGrowing {α : Type} (m : Effect Repo Str α) : Prop :=
  ∀ cs : Set Commit, Effect.Keeps (fun r : Repo => cs ⊆ history r.head) m

variable {α β : Type} {H : Host}

theorem Growing.bind {m : Effect Branches Str α} {k : α → Effect Branches Str β} (hm : Growing m)
    (hk : ∀ a, Growing (k a)) : Growing (m >>= k) := fun s₀ => (hm s₀).bind fun a => hk a s₀

theorem Growing.exec {m : Effect Branches Str α} (hm : Growing m) (s : Branches) :
    s.Grows (Effect.exec m s).2 := hm s s (.refl s)

theorem growing_of_exec {m : Effect Branches Str α}
    (h : ∀ s : Branches, s.Grows (Effect.exec m s).2) :
    Growing m := fun _ s hs => hs.trans (h s)

theorem HeadGrowing.bind {m : Effect Repo Str α} {k : α → Effect Repo Str β} (hm : HeadGrowing m)
    (hk : ∀ a, HeadGrowing (k a)) : HeadGrowing (m >>= k) := fun cs => (hm cs).bind fun a => hk a cs

theorem HeadGrowing.exec {m : Effect Repo Str α} (hm : HeadGrowing m) (r : Repo) :
    history r.head ⊆ history (Effect.exec m r).2.head := hm _ r subset_rfl

theorem headGrowing_of_exec {m : Effect Repo Str α}
    (h : ∀ r, history r.head ⊆ history (Effect.exec m r).2.head) : HeadGrowing m :=
  fun _ r hr => hr.trans (h r)

theorem HeadGrowing.onRepo {m : Effect Repo Str α} (hm : HeadGrowing m) : Growing (onRepo m) :=
  growing_of_exec fun s => .of_head (hm.exec s.repo)

/-! ### The commands -/

theorem headGrowing_stageFile (path : Str) : HeadGrowing (stageFile H path) := by
  refine .bind (fun cs => ?_) fun blob cs => ?_
  · refine (Effect.Keeps.attempt _).bind fun _ r hr => ?_
    rw [Effect.exec_get_bind]
    split
    · exact hr
    · split <;> exact hr
  · refine (Effect.Keeps.attempt _).bind fun _ r hr => ?_
    rw [Effect.exec_get_bind]
    split_ifs <;> exact hr

theorem headGrowing_commitCurrentIndex (principal key : Str) :
    HeadGrowing (commitCurrentIndex H principal key) := by
  refine .bind (fun cs => ?_) fun tree cs r hr => ?_
  · refine (Effect.Keeps.attempt _).bind fun _ r hr => ?_
    rw [Effect.exec_get_bind]
    split_ifs <;> exact hr
  · rw [Effect.exec_get_bind]
    refine Effect.Keeps.bind (I := fun r : Repo => cs ⊆ history r.head) (.attempt _) (fun _ => ?_) r hr
    split
    · exact .throw _
    · refine (Effect.Keeps.attempt _).bind fun _ s _ => hr.trans ?_
      -- the new commit is on top of `HEAD`
      cases r.head with
      | none => simp
      | some parent => exact history_subset_iff.2 (by simp [History.IsAncestor])

theorem headGrowing_signedCommit (paths : List Str) (principal key : Str) :
    HeadGrowing (signedCommit H paths principal key) := by
  unfold signedCommit
  split_ifs
  · exact fun _ => .throw _
  · exact .bind (fun cs => .forM fun path _ => headGrowing_stageFile path cs) fun _ =>
      headGrowing_commitCurrentIndex principal key

@[simp] theorem head_setFile (r : Repo) (place : Location) (content : Option Content) :
    (r.setFile place content).head = r.head := by
  cases place with
  | inside path => rfl
  | outside names => cases content <;> rfl

section Head

variable (P : Option Commit → Prop)

theorem keeps_head_writeFile (raw contents : Str) :
    Effect.Keeps (fun r : Repo => P r.head) (writeFile H raw contents) := by
  intro r hr
  rw [writeFile, Effect.exec_get_bind]
  split
  · exact hr
  · rename_i place _
    split_ifs
    · exact hr
    · rw [Effect.exec_bind, exec_attemptWrite]
      cases H.faults (.writeFile raw) with
      | some e => simpa [Repo.left] using hr
      | none => simpa using hr

theorem keeps_head_createDirAll (cs : List Component) :
    Effect.Keeps (fun r : Repo => P r.head) (createDirAll H cs) := by
  refine (Effect.Keeps.attempt _).bind fun _ r hr => ?_
  rw [Effect.exec_get_bind]
  split <;> exact hr

theorem keeps_head_deviceId (generated : Except Str Str) :
    Effect.Keeps (fun r : Repo => P r.head) (deviceId H generated) := by
  intro r hr
  have hwrite : ∀ id, Effect.Keeps (fun r : Repo => P r.head)
      (writeFile H ".wkp/device-id".toList (id ++ ['\n']) >>= fun _ => pure id) := fun id =>
    (keeps_head_writeFile P _ _).bind fun _ => .pure _
  rw [deviceId, Effect.exec_get_bind]
  dsimp only
  split_ifs
  · exact hr
  · refine Effect.Keeps.bind (I := fun r : Repo => P r.head) ?_ (fun id => ?_) r hr
    · cases generated with
      | ok id => exact .pure id
      | error e => exact .throw e
    · split
      · exact (keeps_head_createDirAll P _).bind fun _ => hwrite id
      · exact hwrite id

end Head

theorem headGrowing_deviceId (generated : Except Str Str) : HeadGrowing (deviceId H generated) :=
  fun cs => keeps_head_deviceId (fun head => cs ⊆ history head) generated

variable (ignored : Repo → Str → Bool)

theorem tip_of_find {s : Branches} {target : Target} {headRef : HeadRef} {c : Commit}
    (h : s.find target = some (headRef, c)) {name : Str} (hname : headRef = .branch name) :
    s.tip name = some c := by
  cases target with
  | branch b =>
    obtain ⟨c', hc', hfound⟩ := Option.map_eq_some_iff.1 h
    obtain ⟨rfl, rfl⟩ := Prod.mk.inj hfound
    exact HeadRef.branch.inj hname ▸ hc'
  | commit d =>
    obtain ⟨rfl, -⟩ := Prod.mk.inj (Option.some.inj h)
    cases hname

theorem tip_checkout (target : Target) (s : Branches) :
    (Effect.exec (checkout H ignored target) s).2.tip = s.tip := by
  rw [checkout, Effect.exec_bind]
  cases H.faults (.checkout target.branch?) with
  | some e => rfl
  | none =>
    change (Effect.exec (get >>= _) s).2.tip = _
    rw [Effect.exec_get_bind]
    cases hfind : s.find target with
    | none => rfl
    | some found =>
      obtain ⟨headRef, c⟩ := found
      dsimp only
      split_ifs
      · rfl
      · rfl
      · funext name
        rw [Effect.exec_set, Branches.tip]
        dsimp only
        split_ifs with hname
        · exact (tip_of_find hfind hname).symm
        · exact Branches.lookup_leave

theorem growing_checkout (target : Target) : Growing (checkout H ignored target) :=
  growing_of_exec fun s => .of_tip_eq (tip_checkout ignored target s)

theorem growing_ensureDeviceBranch (deviceId : Str) : Growing (ensureDeviceBranch H deviceId) := by
  refine growing_of_exec fun s => ?_
  rw [ensureDeviceBranch, Effect.exec_get_bind]
  split_ifs with hb
  · exact .refl s
  · rw [Option.not_isSome_iff_eq_none] at hb
    rw [Effect.exec_bind]
    cases H.faults .branch with
    | some e => rfl
    | none =>
      change s.Grows (Effect.exec (match s.repo.head with | none => _ | some c => _) s).2
      cases s.repo.head with
      | none => rfl
      | some c =>
        -- only the new branch changes, and it was not there
        intro name
        by_cases hname : name = deviceBranchName deviceId
        · rw [hname, hb, history_none]
          exact Set.empty_subset _
        · rw [Effect.exec_set, Branches.tip, Branches.tip]
          dsimp only
          rw [AList.lookup_insert_ne hname]

theorem growing_symbolicRef (name : Str) : Growing (symbolicRef H name) := by
  refine fun s₀ => (Effect.Keeps.attempt _).bind fun _ s hs => hs.trans (.of_tip_eq ?_)
  rw [Effect.exec_get_bind, Effect.exec_set]
  funext b
  rw [Branches.tip]
  dsimp only
  split_ifs with hb
  · rw [HeadRef.branch.inj hb]
  · exact Branches.lookup_leave

theorem growing_captureCurrentRef : Growing captureCurrentRef := by
  refine growing_of_exec fun s => ?_
  rw [captureCurrentRef, Effect.exec_get_bind]
  split <;> rfl

theorem growing_outcome {m : Effect Branches Str α} (hm : Growing m) : Growing (Effect.outcome m) :=
  hm

/-- **No branch loses a commit** when paths are committed to the branch of the device. -/
theorem growing_commitToDeviceBranch (deviceId : Str) (paths : List Str) (principal key : Str) :
    Growing (commitToDeviceBranch H ignored deviceId paths principal key) := by
  have hcommit : Growing (onRepo (signedCommit H paths principal key)) :=
    (headGrowing_signedCommit paths principal key).onRepo
  refine growing_of_exec fun s => ?_
  rw [commitToDeviceBranch, Effect.exec_get_bind]
  split
  · exact ((growing_symbolicRef _).bind fun _ => hcommit).exec s
  · refine Growing.exec ?_ s
    refine (growing_ensureDeviceBranch deviceId).bind fun _ => growing_captureCurrentRef.bind
      fun previous => (growing_checkout ignored _).bind fun _ => (growing_outcome hcommit).bind
        fun result => (growing_outcome (growing_checkout ignored previous)).bind fun restored => ?_
    split
    · exact fun _ => .pure _
    · exact fun _ => .throw _
    · exact fun _ => .throw _

end Git

end Wkp

