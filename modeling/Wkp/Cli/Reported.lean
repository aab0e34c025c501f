import Wkp.Cli.Sync

/-!
# Reported conflicts

Which conflicts of a sync its status reports.

* `Cli.Reported` : every fallback rendering and every unmerged path is among the conflicts.
* `Cli.Reportable` : the state from which a sync can keep that up; `Cli.Reportable.reported`.
* `Cli.reported_of_settles` : it does, in every run of merges none of which hides a conflict
  (`Cli.Settles`).
* `Cli.not_reported_of_diverges` : a merge in which the driver falls back hides one.
-/

namespace Wkp

open Rust Merge Git

namespace Cli

variable (T : CharTables) (F : Filters) (V : View)

/-- The content is the fallback rendering of two documents. -/
def IsFallback (content : Content) : Prop :=
  ∃ ours theirs, content = .text (renderConflict T ours theirs)

/-- Every file that is a fallback rendering, and every path left unmerged, is among the conflicts
that the status reports. -/
def Reported (r : Repo) : Prop :=
  ∀ p, (∃ content, r.worktree.lookup p = some content ∧ IsFallback T content) ∨ r.IsUnmerged p →
    ∃ c ∈ runSyncStatus F V r, c.path = p

/-- Git stopped at the path because one side deleted what the other modified. -/
def ModifyDelete (stages : Stages) : Prop :=
  ∃ deletedBy, stagesKind stages = .modifyDelete deletedBy

/-- The state from which a sync keeps every conflict reported: a fallback rendering is only at
paths left unmerged that the sync does not resolve, and no path left unmerged needs quotes. -/
structure Reportable (r : Repo) : Prop where
  /-- A fallback rendering is at a path left unmerged, not by a deletion. -/
  fallback : ∀ p content, r.worktree.lookup p = some content → IsFallback T content →
    ∃ stages, r.index.lookup p = some (.unmerged stages) ∧ ¬ ModifyDelete stages
  /-- Git prints a path left unmerged as it is. -/
  unquoted : ∀ p, r.IsUnmerged p → Unquoted p

variable {T F V}

theorem mem_runSyncStatus_of_isUnmerged {r : Repo} {p : Str} (h : r.IsUnmerged p)
    (hp : Unquoted p) : ∃ c ∈ runSyncStatus F V r, c.path = p := by
  obtain ⟨stages, hstages⟩ := h
  exact ⟨_, (mem_conflicts F V r).2 ⟨p, stages, hstages, rfl⟩, quotePath_of_unquoted hp⟩

theorem Reportable.reported {r : Repo} (h : Reportable T r) : Reported T F V r := by
  rintro p (⟨content, hfile, hcontent⟩ | hp)
  · obtain ⟨stages, hstages, -⟩ := h.fallback p content hfile hcontent
    exact mem_runSyncStatus_of_isUnmerged ⟨stages, hstages⟩ (h.unquoted p ⟨stages, hstages⟩)
  · exact mem_runSyncStatus_of_isUnmerged hp (h.unquoted p hp)

/-! ### What a merge may do -/

variable (T F) in
/-- The merge of a path hides no conflict: the version it settles on is no fallback rendering, the
driver does not fall back on three texts, a path left unmerged, by git or because the driver could
not read a version, needs no quotes, and one that the sync resolves holds no fallback rendering. -/
def SettlesFile (path : Str) : FileMerge → Prop
  | .settled version => ∀ content ∈ version, ¬ IsFallback T (F.smudge path content)
  | .driven base ours theirs =>
    (∀ b o t, base.getD (.text []) = .text b → ours = .text o → theirs = .text t →
      ¬ Diverges b o t) ∧
    ((base.getD (.text [])).fromUtf8 = none ∨ ours.fromUtf8 = none ∨ theirs.fromUtf8 = none →
      Unquoted path)
  | .stopped stages file =>
    Unquoted path ∧ (ModifyDelete stages → ∀ content ∈ file, ¬ IsFallback T content)

variable (T F) in
/-- A merge that hides no conflict. -/
def Settles (m : Incoming) : Prop :=
  ∀ path file, m.files.lookup path = some file → SettlesFile T F path file

variable (F) in
/-- The filters check out as it is what is no ciphertext. -/
def PlainSmudge : Prop :=
  ∀ path content, content.startsWith Crypto.ageHeader = false → F.smudge path content = content

theorem not_isFallback_of_head {s : Str} (hs : s.head? = some '-') : ¬ IsFallback T (.text s) := by
  rintro ⟨ours, theirs, h⟩
  obtain ⟨rest, hrest⟩ := conflictMarker_prefix_renderConflict T ours theirs
  rw [Content.text.inj h, hrest] at hs
  exact absurd (Option.some.inj hs) (by decide)

/-- What a merge that hides no conflict leaves at a path. -/
theorem outcome_of_settlesFile (hF : PlainSmudge F) {path : Str} {file : FileMerge}
    (h : SettlesFile T F path file) :
    (∀ content, (file.outcome F (mergeDriver T) path).2 = some content → IsFallback T content →
      ∃ stages, (file.outcome F (mergeDriver T) path).1 = some (.unmerged stages) ∧
        ¬ ModifyDelete stages) ∧
    (∀ stages, (file.outcome F (mergeDriver T) path).1 = some (.unmerged stages) →
      Unquoted path) := by
  cases file with
  | settled version =>
    refine ⟨fun content hc hf => ?_, fun stages hs => ?_⟩
    · obtain ⟨v, hv, rfl⟩ := Option.map_eq_some_iff.1 hc
      exact absurd hf (h v hv)
    · obtain ⟨v, -, hv⟩ := Option.map_eq_some_iff.1 hs
      cases hv
  | driven base ours theirs =>
    rw [FileMerge.outcome]
    cases hd : mergeDriver T (base.getD (.text [])) ours theirs with
    | some merged =>
      refine ⟨fun content hc hf => ?_, fun stages hs => by cases hs⟩
      -- what the driver writes is no ciphertext, so it is read as it was written
      obtain ⟨b, o, t, hb, rfl, rfl, rfl⟩ := mergeDriver_eq_some.1 hd
      have hclean := h.1 b o t hb rfl rfl
      obtain rfl := Option.some.inj hc
      have hdash : (merge T b o t).head? = some '-' := by
        rw [merge_of_not_diverges T hclean]
        rfl
      obtain ⟨o', t', hf⟩ := hf
      rw [hF path _ (Crypto.not_startsWith_ageHeader (by rw [hdash]; decide))] at hf
      exact absurd (Content.text.inj hf) (merge_ne_renderConflict T hclean o' t')
    | none =>
      refine ⟨fun content hc hf => ⟨_, rfl, ?_⟩, fun stages hs => ?_⟩
      · rintro ⟨deletedBy, hk⟩
        cases base <;> cases hk
      · refine h.2 ?_
        -- a driver that could read all three texts would not have failed
        by_contra hread
        simp only [not_or, ← Option.isSome_iff_ne_none, Option.isSome_iff_exists] at hread
        obtain ⟨⟨b, hb⟩, ⟨o, ho⟩, ⟨t, ht⟩⟩ := hread
        rw [Content.fromUtf8_eq_some.1 hb, Content.fromUtf8_eq_some.1 ho, Content.fromUtf8_eq_some.1 ht,
          mergeDriver_text] at hd
        cases hd
  | stopped stages file =>
    refine ⟨fun content hc hf => ⟨stages, rfl, fun hm => h.2 hm content hc hf⟩, fun _ _ => h.1⟩

/-! ### What every step keeps -/

theorem Reportable.setAt {r : Repo} (h : Reportable T r) {path : Str} {entry : Option IndexEntry}
    {file : Option Content}
    (hfile : ∀ content, file = some content → IsFallback T content →
      ∃ stages, entry = some (.unmerged stages) ∧ ¬ ModifyDelete stages)
    (hentry : ∀ stages, entry = some (.unmerged stages) → Unquoted path) :
    Reportable T { r with
      index := Repo.setAt r.index path entry, worktree := Repo.setAt r.worktree path file } := by
  refine ⟨fun p content hp hf => ?_, ?_⟩
  · simp only [Repo.lookup_setAt] at hp ⊢
    split_ifs at hp ⊢
    · exact hfile content hp hf
    · exact h.fallback p content hp hf
  · rintro p ⟨stages, hp⟩
    simp only [Repo.lookup_setAt] at hp
    split_ifs at hp with hpath
    · exact hpath ▸ hentry stages hp
    · exact h.unquoted p ⟨stages, hp⟩

/-- A path without a fallback rendering is staged, or given a text that is none. -/
theorem Reportable.stage {r : Repo} (h : Reportable T r) {path : Str} {entry : Option IndexEntry}
    (hfile : ∀ content, r.worktree.lookup path = some content → ¬ IsFallback T content)
    (hentry : ∀ stages, entry ≠ some (.unmerged stages)) :
    Reportable T { r with index := Repo.setAt r.index path entry } := by
  refine ⟨fun p content hp hf => ?_, ?_⟩
  · simp only [Repo.lookup_setAt]
    split_ifs with hpath
    · exact absurd hf (hfile content (hpath ▸ hp))
    · exact h.fallback p content hp hf
  · rintro p ⟨stages, hp⟩
    simp only [Repo.lookup_setAt] at hp
    split_ifs at hp with hpath
    · exact absurd hp (hentry stages)
    · exact h.unquoted p ⟨stages, hp⟩

theorem Reportable.settleFiles (hF : PlainSmudge F) {r : Repo} (h : Reportable T r)
    {files : AList fun _ : Str => FileMerge}
    (hfiles : ∀ path file, files.lookup path = some file → SettlesFile T F path file) :
    Reportable T (Git.settleFiles F (mergeDriver T) r files) := by
  have hmem : ∀ e ∈ files.entries, SettlesFile T F e.1 e.2 := fun e he =>
    hfiles e.1 e.2 (AList.mem_lookup_iff.2 he)
  rw [Git.settleFiles]
  generalize files.entries = l at hmem
  induction l generalizing r with
  | nil => exact h
  | cons e l ih =>
    obtain ⟨hfile, hentry⟩ := outcome_of_settlesFile hF (hmem e List.mem_cons_self)
    exact ih (h.setAt hfile hentry) fun e he => hmem e (List.mem_cons_of_mem _ he)

theorem Reportable.of_eq {r r' : Repo} (h : Reportable T r) (hi : r'.index = r.index)
    (hw : r'.worktree = r.worktree) : Reportable T r' := by
  refine ⟨?_, ?_⟩
  · rw [hi, hw]
    exact h.fallback
  · rintro p ⟨stages, hp⟩
    exact h.unquoted p ⟨stages, hi ▸ hp⟩

theorem keeps_mergeBranch (hF : PlainSmudge F) {m : Incoming} (hm : Settles T F m) :
    Effect.Keeps (Reportable T) (mergeBranch F (mergeDriver T) m) := by
  intro r hr
  have hs := hr.settleFiles hF hm
  rw [mergeBranch, Effect.exec_bind, Effect.exec_get]
  dsimp only
  split
  · exact hr
  · cases m.kind with
    | refused | upToDate => exact hr
    | fastForward => exact hs.of_eq rfl rfl
    | threeWay =>
      dsimp only
      split
      · exact hs.of_eq rfl rfl
      · exact hs.of_eq rfl rfl

theorem keeps_finishMerge : Effect.Keeps (Reportable T) finishMerge := by
  intro r hr
  rw [finishMerge, Effect.exec_bind, Effect.exec_get]
  dsimp only
  split
  · exact hr
  · cases r.mergeHead with
    | none => exact hr
    | some theirs => exact hr.of_eq rfl rfl

variable (T) in
/-- The state in which a sync may resolve the given paths. -/
def Resolvable (paths : List Str) (r : Repo) : Prop :=
  Reportable T r ∧ ∀ p ∈ paths, ∀ content, r.worktree.lookup p = some content →
    ¬ IsFallback T content

theorem Resolvable.stagePath {paths : List Str} {r : Repo} (h : Resolvable T paths r)
    {ignored : Str → Bool} {p : Str}
    (hp : ∀ content, r.worktree.lookup p = some content → ¬ IsFallback T content) :
    Resolvable T paths (Effect.exec (Git.stagePath F ignored p) r).2 := by
  rcases exec_stagePath F ignored p r with hs | ⟨entry, hentry, hs⟩
  · rwa [hs]
  · rw [hs]
    exact ⟨h.1.stage hp hentry, h.2⟩

theorem keeps_note {paths : List Str} {path text : Str} (htext : text.head? = some '-') :
    Effect.Keeps (Resolvable T paths) (do
      writeInboxFile path text
      let r ← get
      Git.stagePath F (V.ignored r) path
      return path) := by
  intro r hr
  -- staging leaves the path resolvable, whatever the file has by then
  have hstaged : ∀ r', Resolvable T paths r' →
      (∀ content, r'.worktree.lookup path = some content → ¬ IsFallback T content) →
      Resolvable T paths (Effect.exec (do
        let r ← get
        Git.stagePath F (V.ignored r) path
        return path) r').2 := by
    intro r' hr' hpath
    rw [Effect.exec_bind, Effect.exec_get]
    dsimp only
    have hs : Resolvable T paths (Effect.exec (Git.stagePath F (V.ignored r') path) r').2 :=
      hr'.stagePath hpath
    rw [Effect.exec_bind]
    rcases hx : Effect.exec (Git.stagePath F (V.ignored r') path) r' with ⟨e | a, r₁⟩ <;>
      rwa [hx] at hs
  -- a note begins with a dash, which no fallback rendering does
  have hwritten : Resolvable T paths
      { r with worktree := r.worktree.insert path (.text text) } := by
    refine ⟨⟨fun p content hp hf => ?_, hr.1.unquoted⟩, fun p hpaths content hp => ?_⟩
    all_goals
      by_cases hpath : p = path
      · subst hpath
        rw [AList.lookup_insert] at hp
        obtain rfl := Option.some.inj hp
        first
        | exact absurd hf (not_isFallback_of_head htext)
        | exact not_isFallback_of_head htext
      · rw [AList.lookup_insert_ne hpath] at hp
        first
        | exact hr.1.fallback p content hp hf
        | exact hr.2 p hpaths content hp
  rw [Effect.exec_bind, writeInboxFile, Effect.exec_bind, Effect.exec_get]
  dsimp only
  split_ifs
  · exact hr
  · refine hstaged _ hwritten fun content hcontent => ?_
    rw [AList.lookup_insert] at hcontent
    rw [← Option.some.inj hcontent]
    exact not_isFallback_of_head htext

theorem keeps_resolveConflict {paths : List Str} {nanos : ℕ} {conflict : Str × DeletedBy}
    (hc : conflict.1 ∈ paths) :
    Effect.Keeps (Resolvable T paths) (resolveConflict T F V nanos conflict) := by
  have hstage : ∀ r : Repo, Effect.Keeps (Resolvable T paths)
      (Git.stagePath F (V.ignored r) conflict.1) :=
    fun r s hs => hs.stagePath (hs.2 conflict.1 hc)
  exact Effect.Keeps.get.bind fun r => (hstage r).bind fun _ =>
    keeps_note (head?_deletionNote T conflict.1 conflict.2)

/-- The paths that a sync resolves may be resolved. -/
theorem Reportable.resolvable {r : Repo} (h : Reportable T r) :
    Resolvable T ((modifyDeleteConflicts F V r).map Prod.fst) r := by
  refine ⟨h, fun p hp content hcontent hf => ?_⟩
  obtain ⟨c, hc, rfl⟩ := List.mem_map.1 hp
  obtain ⟨p, stages, hstages, hmd, hpath⟩ := mem_modifyDeleteConflicts.1 hc
  rw [← hpath, quotePath_of_unquoted (h.unquoted p ⟨stages, hstages⟩)] at hcontent
  obtain ⟨stages', hstages', hnot⟩ := h.fallback p content hcontent hf
  rw [hstages] at hstages'
  obtain rfl : stages = stages' := by cases hstages'; rfl
  exact hnot ⟨_, hmd⟩

theorem keeps_resolveModifyDeleteConflicts (clock : ℕ → ℕ) :
    Effect.Keeps (Reportable T) (resolveModifyDeleteConflicts T F V clock) := by
  intro r hr
  rw [resolveModifyDeleteConflicts, Effect.exec_bind, Effect.exec_get]
  dsimp only
  refine (Effect.Keeps.mapM (I := Resolvable T ((modifyDeleteConflicts F V r).map Prod.fst))
    (fun c hc => keeps_resolveConflict ?_) r hr.resolvable).1
  obtain ⟨c, i⟩ := c
  exact List.mem_map_of_mem (List.fst_mem_of_mem_zipIdx hc)

theorem keeps_mergeRef (hF : PlainSmudge F) {m : Incoming × (ℕ → ℕ)} (hm : Settles T F m.1) :
    Effect.Keeps (Reportable T) (mergeRef T F V m) := by
  refine (keeps_mergeBranch hF hm).bind fun clean => ?_
  cases clean with
  | true => exact .pure _
  | false =>
    have hfinish : Effect.Keeps (Reportable T) (resolveAndFinish T F V m.2) :=
      (keeps_resolveModifyDeleteConflicts m.2).bind fun _ => keeps_finishMerge
    exact hfinish.bind fun _ => .pure _

/-- **A sync reports every conflict** if none of its merges hides one, wherever it stops. -/
theorem reported_of_settles (T : CharTables) (V : View) (age : Crypto.Age) (storeRoot : Str)
    (deviceId : Except Str Str) (ensure : Str → Except Crypto.Error age.Identity) {r : Repo}
    (hr : Reportable T r) {refs : List (Incoming × (ℕ → ℕ))}
    (hrefs : ∀ m ∈ refs, Settles T (filters age storeRoot deviceId ensure) m.1) :
    Reported T (filters age storeRoot deviceId ensure) V
      (Effect.exec (mergeRefsIntoCurrentBranch T (filters age storeRoot deviceId ensure) V refs) r).2
      := by
  have hF : PlainSmudge (filters age storeRoot deviceId ensure) := fun path _ hc =>
    smudge_of_not_startsWith age storeRoot deviceId ensure path hc
  exact (Effect.Keeps.mapM (fun m hm => keeps_mergeRef hF (hrefs m hm)) r hr).reported

/-- Only a path left unmerged is reported under a name that git prints as it is. -/
theorem isUnmerged_of_mem_runSyncStatus {r : Repo} {c : Conflict} (h : c ∈ runSyncStatus F V r)
    (hc : Unquoted c.path) : r.IsUnmerged c.path := by
  obtain ⟨p, stages, hstages, rfl⟩ := (mem_conflicts F V r).1 h
  by_cases hp : Unquoted p
  · rw [quotePath_of_unquoted hp]
    exact ⟨stages, hstages⟩
  · exact absurd (getLast?_quotePath hp) (getLast?_ne_of_unquoted hc)

/-- **A merge in which the driver falls back hides a conflict**: git takes the rendering for a
merge, and the status does not report the path. -/
theorem not_reported_of_diverges (hF : PlainSmudge F) {r : Repo} {m : Incoming}
    (hidle : r.mergeHead = none ∧ r.hasUnmerged = false) (hkind : m.kind = .threeWay) {path : Str}
    {base : Option Content} {b o t : Str}
    (hfile : m.files.lookup path = some (.driven base (.text o) (.text t)))
    (hb : base.getD (.text []) = .text b) (hdiv : Diverges b o t) (hpath : Unquoted path) :
    ¬ Reported T F V (Effect.exec (mergeBranch F (mergeDriver T) m) r).2 := by
  have hmerged : mergeDriver T (base.getD (.text [])) (.text o) (.text t) =
      some (.text (renderConflict T o t)) := by
    rw [hb, mergeDriver_text, merge_of_diverges T hdiv]
  have hplain : F.smudge path (.text (renderConflict T o t)) = .text (renderConflict T o t) := by
    obtain ⟨rest, hrest⟩ := conflictMarker_prefix_renderConflict T o t
    refine hF path _ (Crypto.not_startsWith_ageHeader ?_)
    rw [hrest]
    exact fun h => absurd (Option.some.inj h) (by decide)
  obtain ⟨hindex, hworktree⟩ := lookup_settleFiles F (mergeDriver T) r m.files hfile
  rw [FileMerge.outcome, hmerged] at hindex hworktree
  -- whether or not another path stops the merge, this one is staged with the rendering
  have hafter : (Effect.exec (mergeBranch F (mergeDriver T) m) r).2.index =
        (settleFiles F (mergeDriver T) r m.files).index ∧
      (Effect.exec (mergeBranch F (mergeDriver T) m) r).2.worktree =
        (settleFiles F (mergeDriver T) r m.files).worktree := by
    rw [mergeBranch, Effect.exec_bind, Effect.exec_get]
    dsimp only
    rw [if_neg (by simp [hidle.1, hidle.2]), hkind]
    dsimp only
    split <;> exact ⟨rfl, rfl⟩
  intro h
  obtain ⟨c, hc, rfl⟩ := h path (.inl ⟨_, by rw [hafter.2, hworktree], _, _, hplain⟩)
  obtain ⟨stages, hstages⟩ := isUnmerged_of_mem_runSyncStatus hc hpath
  rw [hafter.1, hindex] at hstages
  cases hstages

/-- A document with the given title. -/
def exampleDoc (title : String) : Content :=
  .text ("---\ntitle: ".toList ++ title.toList ++ "\n---\nbody\n".toList)

/-- A store with one document. -/
def exampleStore (doc : Content) : Repo where
  head := some (.root (AList.singleton "a.md".toList doc) unsigned)
  index := AList.singleton "a.md".toList (.staged doc)
  worktree := AList.singleton "a.md".toList doc

/-- The merge of a branch with another version of the document. -/
def exampleIncoming (base ours theirs : Content) : Incoming where
  ref := "origin/sync/b".toList
  commit := .root (AList.singleton "a.md".toList theirs) unsigned
  kind := .threeWay
  files := AList.singleton "a.md".toList (.driven (some base) ours theirs)

/-- The store after a sync that merges the other version. -/
def exampleSync (base ours theirs : Content) : Repo :=
  (Effect.exec (mergeRefsIntoCurrentBranch CharTables.asciiOnly exampleFilters exampleView
    [(exampleIncoming base ours theirs, fun _ => 0)]) (exampleStore ours)).2

theorem reported_of_settles_exampleSync : Reported CharTables.asciiOnly exampleFilters exampleView
    (exampleSync (exampleDoc "a") (exampleDoc "a") (exampleDoc "b")) := by
  refine reported_of_settles _ _ _ _ _ _ ⟨fun p content hp hf => ?_, ?_⟩ fun m hm => ?_
  · obtain ⟨rfl, hc⟩ := Sigma.mk.inj (List.mem_singleton.1 (AList.mem_lookup_iff.1 hp))
    obtain rfl := eq_of_heq hc
    exact absurd hf (not_isFallback_of_head rfl)
  · rintro p ⟨stages, hp⟩
    obtain ⟨rfl, hc⟩ := Sigma.mk.inj (List.mem_singleton.1 (AList.mem_lookup_iff.1 hp))
    exact absurd (eq_of_heq hc) nofun
  · obtain rfl := List.mem_singleton.1 hm
    intro path file hfile
    obtain ⟨rfl, hc⟩ := Sigma.mk.inj (List.mem_singleton.1 (AList.mem_lookup_iff.1 hfile))
    obtain rfl := eq_of_heq hc
    refine ⟨?_, by decide⟩
    rintro b o t ⟨⟩ ⟨⟩ ⟨⟩
    decide +kernel

/-- Two versions with different titles: the sync leaves a fallback rendering, and its status
reports nothing. -/
theorem not_reported_exampleSync : ¬ Reported CharTables.asciiOnly exampleFilters exampleView
    (exampleSync (exampleDoc "a") (exampleDoc "b") (exampleDoc "c")) := by
  intro h
  have hfile : (exampleSync (exampleDoc "a") (exampleDoc "b") (exampleDoc "c")).worktree.lookup
      "a.md".toList = some (.text (renderConflict CharTables.asciiOnly
        "---\ntitle: b\n---\nbody\n".toList "---\ntitle: c\n---\nbody\n".toList)) := by
    decide +kernel
  have hstatus : runSyncStatus exampleFilters exampleView
      (exampleSync (exampleDoc "a") (exampleDoc "b") (exampleDoc "c")) = [] := by
    decide +kernel
  obtain ⟨c, hc, -⟩ := h _ (.inl ⟨_, hfile, _, _, rfl⟩)
  rw [hstatus] at hc
  cases hc

end Cli

end Wkp
