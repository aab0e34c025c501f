import Wkp.Cli.Notes
import Wkp.Cli.Reported

/-!
# Modifications that survive

What the loop of a sync makes of the paths that one side deleted and the other modified, when git
reads the paths that it is given as pathspecs.

* `Cli.resolveModifyDeleteBySpec` : the loop.
* `Cli.Survives` : every modification is kept, and a note about each deletion is left.
* `Cli.survives_iff` : this holds exactly when no note takes a path that is in use, and no path
  is read as a pathspec that stages something else (`Cli.Clear`).
-/

namespace Wkp

open Rust Git
open Frontmatter (parse)

namespace Cli

/-! ### The loop -/

section Loop

variable (G : Pathspecs) (T : CharTables) (F : Filters) (V : View)

/-- Keep the modification, and leave a note about the deletion. -/
def resolveConflictBySpec (nanos : ℕ) (conflict : Str × DeletedBy) : Effect Repo Str Str := do
  let r ← get
  addSpec G F (V.ignored r) conflict.1
  writeInboxFile (notePath conflict.1 nanos) (deletionNote T conflict.1 conflict.2)
  let r ← get
  addSpec G F (V.ignored r) (notePath conflict.1 nanos)
  return notePath conflict.1 nanos

/-- Keep the modification at every path that one side deleted and the other modified. -/
def resolveModifyDeleteBySpec (clock : ℕ → ℕ) : Effect Repo Str (List Str) := do
  let r ← get
  (modifyDeleteConflicts F V r).zipIdx.mapM fun c => resolveConflictBySpec G T F V (clock c.2) c.1

end Loop

/-! ### What should hold after it -/

/-- The path is staged with the content, which is in the worktree. -/
structure StagedWith (F : Filters) (r : Repo) (path : Str) (content : Content) : Prop where
  /-- The worktree has it. -/
  file : r.worktree.lookup path = some content
  /-- The index has what is stored for it. -/
  entry : ∃ blob, F.clean r.worktree path content = .ok blob ∧
    r.index.lookup path = some (.staged blob)

/-- A new item about a conflict. -/
structure IsNote (F : Filters) (r r' : Repo) (conflict : Str × DeletedBy) (note : Str) : Prop where
  /-- It is in the inbox. -/
  inbox : "inbox/".toList <+: note
  /-- Nothing was at its path. -/
  free : note ∉ r.worktree ∧ note ∉ r.index
  /-- It is staged, only proposed, and names the path of the conflict. -/
  staged : ∃ text, StagedWith F r' note (.text text) ∧
    (parse text).frontmatter.confidence = some .proposed ∧ conflict.1 <:+: (parse text).body

/-- Every modification is kept, and a note about each deletion is left. -/
structure Survives (F : Filters) (V : View) (r : Repo) (notes : List Str) (r' : Repo) : Prop where
  /-- No conflict is left. -/
  resolved : modifyDeleteConflicts F V r' = []
  /-- Each path is staged with what was in the worktree. -/
  kept : ∀ c ∈ modifyDeleteConflicts F V r, ∃ content, r.worktree.lookup c.1 = some content ∧
    StagedWith F r' c.1 content
  /-- There is one conflict for each path. -/
  distinct : ((modifyDeleteConflicts F V r).map Prod.fst).Nodup
  /-- There is a note for each conflict. -/
  noted : List.Forall₂ (IsNote F r r') (modifyDeleteConflicts F V r) notes
  /-- No note is for two. -/
  nodup : notes.Nodup
  /-- No other file changed. -/
  worktree : ∀ p, p ∉ notes → r'.worktree.lookup p = r.worktree.lookup p
  /-- No other entry of the index changed. -/
  index : ∀ p, p ∉ notes → p ∉ (modifyDeleteConflicts F V r).map Prod.fst →
    r'.index.lookup p = r.index.lookup p

/-! ### When it does -/

section Condition

variable (G : Pathspecs) (F : Filters) (V : View) (clock : ℕ → ℕ) (r : Repo)

/-- The paths of the notes. -/
def notePaths : List Str :=
  (modifyDeleteConflicts F V r).zipIdx.map fun c => notePath c.1.1 (clock c.2)

/-- The pathspecs of the loop. -/
def specs : List Str :=
  (modifyDeleteConflicts F V r).zipIdx.flatMap fun c => [c.1.1, notePath c.1.1 (clock c.2)]

/-- Nothing is in the way of the notes, and the pathspecs stage what they should and no more. -/
structure Clear : Prop where
  /-- Nothing is at the path of a note. -/
  free : ∀ note ∈ notePaths F V clock r, note ∉ r.worktree ∧ note ∉ r.index
  /-- A pathspec fits the path of each conflict. -/
  found : ∀ c ∈ modifyDeleteConflicts F V r, ∃ spec ∈ specs F V clock r, G.fits spec c.1 = true
  /-- Any other path that one fits is staged already as it is in the worktree. -/
  current : ∀ p ∈ r.knownPaths (V.ignored r), p ∉ (modifyDeleteConflicts F V r).map Prod.fst →
    ∀ spec ∈ specs F V clock r, G.fits spec p = true → r.IsCurrent F p

end Condition

/-- What a merge that stopped leaves: the paths left unmerged need no quotes, and a modification is
in the worktree when the other side deleted the file. -/
structure Stopped (r : Repo) : Prop where
  /-- Git prints a path left unmerged as it is. -/
  unquoted : ∀ p, r.IsUnmerged p → Unquoted p
  /-- The modification is in the worktree. -/
  modified : ∀ p stages, r.index.lookup p = some (.unmerged stages) → ModifyDelete stages →
    p ∈ r.worktree

/-- The rules of what git ignores are in other files than the notes. -/
def RulesElsewhere (V : View) : Prop := ∀ r r' : Repo,
  (∀ p, ¬ IsNotePath p → r.worktree.lookup p = r'.worktree.lookup p) → V.ignored r = V.ignored r'

/-- The notes neither change what is stored for a file nor what is ignored. -/
structure SkipsNotes (F : Filters) (V : View) : Prop where
  /-- What is stored for a file does not depend on them. -/
  clean : ∀ files files' : Files,
    (∀ p, ¬ IsNotePath p → files.lookup p = files'.lookup p) → F.clean files = F.clean files'
  /-- What is ignored does not depend on them. -/
  ignored : RulesElsewhere V

/-- The filters of wkp read the recipients file only. -/
theorem skipsNotes_filters {V : View} (hV : RulesElsewhere V) (age : Crypto.Age) (storeRoot : Str)
    (deviceId : Except Str Str) (ensure : Str → Except Crypto.Error age.Identity) :
    SkipsNotes (filters age storeRoot deviceId ensure) V := by
  refine ⟨fun files files' h => ?_, hV⟩
  have hrecipients : ¬ IsNotePath recipientsFilename := fun hnote =>
    absurd (List.isPrefixOf_iff_prefix.2 hnote.1) (by decide)
  have hread : files.readToString recipientsFilename = files'.readToString recipientsFilename := by
    rw [Files.readToString, Files.readToString, h _ hrecipients]
  have hclean : ∀ content, runFilterClean age storeRoot files content =
      runFilterClean age storeRoot files' content := fun content => by
    rw [runFilterClean, runFilterClean, hread]
  funext path content
  exact ite_congr rfl (fun _ => hclean content) fun _ => rfl

variable {G : Pathspecs} {T : CharTables} {F : Filters} {V : View} {clock : ℕ → ℕ} {r : Repo}

/-! ### The conflicts and their notes -/

/-- Each path is in conflict once, whichever conflicts are looked at. -/
theorem nodup_filterMap_conflicts (hr : Stopped r) {look : Conflict → Option (Str × DeletedBy)}
    (hlook : ∀ c d, look c = some d → d.1 = c.path) :
    (((conflicts F V r).filterMap look).map Prod.fst).Nodup := by
  rw [conflicts_eq, List.filterMap_filterMap, List.map_filterMap]
  refine r.nodup_trackedPaths.filterMap fun p q path hp hq => ?_
  have hpath : ∀ p, path ∈ Option.map Prod.fst ((conflictAt r p).bind look) → p = path := by
    intro p hp
    obtain ⟨c, hc, rfl⟩ := Option.map_eq_some_iff.1 hp
    obtain ⟨conflict, hconflict, hkind⟩ := Option.bind_eq_some_iff.1 hc
    obtain ⟨stages, hstages, rfl⟩ := conflictAt_eq_some.1 hconflict
    rw [hlook _ _ hkind]
    exact (quotePath_of_unquoted (hr.unquoted p ⟨stages, hstages⟩)).symm
  exact (hpath p hp).trans (hpath q hq).symm

theorem nodup_modifyDeleteConflicts (hr : Stopped r) :
    ((modifyDeleteConflicts F V r).map Prod.fst).Nodup := by
  refine nodup_filterMap_conflicts hr fun c d h => ?_
  split at h
  · rw [← Option.some.inj h]
  · cases h

theorem Stopped.of_mem (hr : Stopped r) {c : Str × DeletedBy}
    (hc : c ∈ modifyDeleteConflicts F V r) :
    c.1 ∈ r.worktree ∧ ∃ stages, r.index.lookup c.1 = some (.unmerged stages) := by
  obtain ⟨p, stages, hstages, hkind, hpath⟩ := mem_modifyDeleteConflicts.1 hc
  rw [quotePath_of_unquoted (hr.unquoted p ⟨stages, hstages⟩)] at hpath
  subst hpath
  exact ⟨hr.modified c.1 stages hstages ⟨_, hkind⟩, stages, hstages⟩

theorem isNotePath_of_mem {note : Str} (h : note ∈ notePaths F V clock r) : IsNotePath note := by
  obtain ⟨c, -, rfl⟩ := List.mem_map.1 h
  exact isNotePath_notePath _ _

theorem nodup_notePaths (hclock : StrictMono clock) : (notePaths F V clock r).Nodup := by
  rw [notePaths]
  have hnodup : ((modifyDeleteConflicts F V r).zipIdx.map Prod.snd).Nodup := by
    rw [List.zipIdx_map_snd]
    exact List.nodup_range'
  rw [List.Nodup, List.pairwise_map] at hnodup ⊢
  exact hnodup.imp fun hne h => hne (hclock.injective (nanos_eq_of_notePath_eq h))

theorem forall₂_notePaths {R : Str × DeletedBy → Str → Prop}
    : List.Forall₂ R (modifyDeleteConflicts F V r) (notePaths F V clock r) ↔
      ∀ c ∈ (modifyDeleteConflicts F V r).zipIdx, R c.1 (notePath c.1.1 (clock c.2)) := by
  have hconflicts : modifyDeleteConflicts F V r =
      (modifyDeleteConflicts F V r).zipIdx.map Prod.fst := (List.zipIdx_map_fst _ _).symm
  conv_lhs => rw [hconflicts]
  rw [notePaths, List.forall₂_map_left_iff, List.forall₂_map_right_iff, List.forall₂_same]

/-! ### What the loop keeps -/

theorem stagedWith_iff {path : Str} {content : Content} : StagedWith F r path content ↔
    r.worktree.lookup path = some content ∧ r.IsCurrent F path := by
  constructor
  · rintro ⟨hfile, blob, hblob, hentry⟩
    refine ⟨hfile, ?_⟩
    rw [Repo.IsCurrent, Repo.entryFor, hfile, hentry]
    dsimp only
    rw [hblob]
    rfl
  · rintro ⟨hfile, hcurrent⟩
    rw [Repo.IsCurrent, Repo.entryFor, hfile] at hcurrent
    dsimp only at hcurrent
    cases hblob : F.clean r.worktree path content with
    | error e =>
      rw [hblob] at hcurrent
      cases hcurrent
    | ok blob =>
      rw [hblob] at hcurrent
      exact ⟨hfile, blob, hblob, (Except.ok.inj hcurrent).symm⟩

/-- A pathspec of the list fits the path, which git knows of. -/
def Touched (G : Pathspecs) (V : View) (r : Repo) (specs : List Str) (p : Str) : Prop :=
  p ∈ r.knownPaths (V.ignored r) ∧ ∃ spec ∈ specs, G.fits spec p = true

/-- The repository with a text in the worktree. -/
def withText (s : Repo) (path text : Str) : Repo :=
  { s with worktree := s.worktree.insert path (.text text) }

/-- What the loop made of the paths that are not those of its notes, after it added what these
pathspecs fit. -/
structure Progress (G : Pathspecs) (F : Filters) (V : View) (notes : List Str) (r : Repo)
    (specs : List Str) (s : Repo) : Prop where
  /-- The files are as they were. -/
  worktree : ∀ p, p ∉ notes → s.worktree.lookup p = r.worktree.lookup p
  /-- A path that was added is staged as it is in the worktree. -/
  current : ∀ p, p ∉ notes → Touched G V r specs p → s.IsCurrent F p
  /-- The entries of the others are as they were. -/
  index : ∀ p, p ∉ notes → ¬ Touched G V r specs p → s.index.lookup p = r.index.lookup p

section Progress

variable {notes specs : List Str} {s s' : Repo}

/-- Outside the notes, what is staged for a file does not change. -/
theorem entryFor_congr (hskip : SkipsNotes F V) (hnotes : ∀ n ∈ notes, IsNotePath n)
    (h : ∀ p, p ∉ notes → s.worktree.lookup p = r.worktree.lookup p) {p : Str} (hp : p ∉ notes) :
    s.entryFor F p = r.entryFor F p := by
  rw [Repo.entryFor, Repo.entryFor, h p hp,
    hskip.clean _ _ fun q hq => h q fun hmem => hq (hnotes q hmem)]

theorem Progress.refl : Progress G F V notes r [] r := by
  refine ⟨fun _ _ => rfl, fun p _ h => ?_, fun _ _ _ => rfl⟩
  obtain ⟨-, spec, hspec, -⟩ := h
  exact absurd hspec List.not_mem_nil

theorem Progress.addSpec (hskip : SkipsNotes F V) (hnotes : ∀ n ∈ notes, IsNotePath n)
    (h : Progress G F V notes r specs s) {spec : Str} {u : Unit}
    (hadd : Effect.exec (Git.addSpec G F (V.ignored s) spec) s = (.ok u, s')) :
    Progress G F V notes r (specs ++ [spec]) s' := by
  obtain ⟨hs', -, hindex⟩ := exec_addSpec_eq_ok hadd
  have hworktree : s'.worktree = s.worktree := by rw [hs']
  have hignored : V.ignored s = V.ignored r :=
    hskip.ignored s r fun p hp => h.worktree p fun hmem => hp (hnotes p hmem)
  -- a path that no pathspec touched is known exactly when it was at the start
  have hknown : ∀ p, p ∉ notes → ¬ Touched G V r specs p →
      (p ∈ s.knownPaths (V.ignored s) ↔ p ∈ r.knownPaths (V.ignored r)) := by
    intro p hp hnot
    rw [Repo.mem_knownPaths, Repo.mem_knownPaths, hignored, ← AList.lookup_isSome,
      ← AList.lookup_isSome, ← AList.lookup_isSome, ← AList.lookup_isSome, h.worktree p hp,
      h.index p hp hnot]
  refine ⟨fun p hp => hworktree ▸ h.worktree p hp, fun p hp htouched => ?_, fun p hp hnot => ?_⟩
  · by_cases hbefore : Touched G V r specs p
    · exact (h.current p hp hbefore).addSpec hadd
    · obtain ⟨hmem, spec', hspec', hfits⟩ := htouched
      rcases List.mem_append.1 hspec' with hspec' | hspec'
      · exact absurd ⟨hmem, spec', hspec', hfits⟩ hbefore
      · obtain rfl := List.mem_singleton.1 hspec'
        exact (hindex p).1 ⟨(hknown p hp hbefore).2 hmem, hfits⟩
  · have hbefore : ¬ Touched G V r specs p := fun ⟨hmem, spec', hspec', hfits⟩ =>
      hnot ⟨hmem, spec', List.mem_append_left _ hspec', hfits⟩
    rw [(hindex p).2, h.index p hp hbefore]
    rintro ⟨hmem, hfits⟩
    exact hnot ⟨(hknown p hp hbefore).1 hmem, spec, by simp, hfits⟩

theorem Progress.write (hskip : SkipsNotes F V) (hnotes : ∀ n ∈ notes, IsNotePath n)
    (h : Progress G F V notes r specs s) {note : Str} (hnote : note ∈ notes) (text : Str) :
    Progress G F V notes r specs (withText s note text) := by
  have hworktree : ∀ p, p ∉ notes →
      (s.worktree.insert note (.text text)).lookup p = s.worktree.lookup p :=
    fun p hp => AList.lookup_insert_ne fun heq => hp (heq ▸ hnote)
  refine ⟨fun p hp => (hworktree p hp).trans (h.worktree p hp), fun p hp htouched => ?_, h.index⟩
  exact (entryFor_congr hskip hnotes hworktree hp).trans (h.current p hp htouched)

theorem exec_resolveConflictBySpec_eq_ok {nanos : ℕ} {c : Str × DeletedBy} {note : Str}
    (h : Effect.exec (resolveConflictBySpec G T F V nanos c) s = (.ok note, s')) :
    note = notePath c.1 nanos ∧ ∃ s₁ s₂,
      Effect.exec (Git.addSpec G F (V.ignored s) c.1) s = (.ok (), s₁) ∧
      s₂ = withText s₁ (notePath c.1 nanos) (deletionNote T c.1 c.2) ∧
      Effect.exec (Git.addSpec G F (V.ignored s₂) (notePath c.1 nanos)) s₂ = (.ok (), s') := by
  rw [resolveConflictBySpec, Effect.exec_get_bind, Effect.exec_bind_eq_ok] at h
  obtain ⟨_, s₁, hadd, h⟩ := h
  rw [Effect.exec_bind_eq_ok] at h
  obtain ⟨_, s₂, hwrite, h⟩ := h
  rw [Effect.exec_get_bind, Effect.exec_bind_eq_ok] at h
  obtain ⟨_, s₃, hnote, h⟩ := h
  cases h
  rw [writeInboxFile, Effect.exec_get_bind] at hwrite
  split_ifs at hwrite
  · cases hwrite
  · cases hwrite
    exact ⟨rfl, s₁, _, hadd, rfl, hnote⟩

theorem StagedWith.addSpec {path spec : Str} {content : Content} {ignored : Str → Bool} {u : Unit}
    (h : StagedWith F s path content)
    (hadd : Effect.exec (Git.addSpec G F ignored spec) s = (.ok u, s')) :
    StagedWith F s' path content := by
  rw [stagedWith_iff] at h ⊢
  refine ⟨?_, h.2.addSpec hadd⟩
  rw [(exec_addSpec_eq_ok hadd).1]
  exact h.1

theorem StagedWith.write (hskip : SkipsNotes F V) {path note : Str} {content : Content}
    (h : StagedWith F s path content) (hne : path ≠ note) (hnote : IsNotePath note) (text : Str) :
    StagedWith F (withText s note text) path content := by
  rw [stagedWith_iff] at h ⊢
  refine ⟨(AList.lookup_insert_ne hne).trans h.1, ?_⟩
  have hworktree : ∀ p, p ∉ [note] → (withText s note text).worktree.lookup p =
      s.worktree.lookup p := fun p hp => AList.lookup_insert_ne (mt List.mem_singleton.2 hp)
  exact (entryFor_congr hskip (List.forall_mem_singleton.2 hnote) hworktree
    (mt List.mem_singleton.1 hne)).trans h.2

/-- **What the loop leaves** when it succeeds: its notes, all staged, and elsewhere what its
pathspecs added. -/
theorem progress_of_resolveModifyDelete (hskip : SkipsNotes F V) (hclock : StrictMono clock)
    {r' : Repo}
    (h : Effect.exec (resolveModifyDeleteBySpec G T F V clock) r = (.ok notes, r')) :
    notes = notePaths F V clock r ∧
      Progress G F V (notePaths F V clock r) r (Cli.specs F V clock r) r' ∧
      ∀ c ∈ (modifyDeleteConflicts F V r).zipIdx,
        StagedWith F r' (notePath c.1.1 (clock c.2)) (.text (deletionNote T c.1.1 c.1.2)) := by
  rw [resolveModifyDeleteBySpec, Effect.exec_get_bind] at h
  have hnotes : ∀ n ∈ notePaths F V clock r, IsNotePath n := fun n hn => isNotePath_of_mem hn
  refine Effect.exec_mapM_invariant
    (P := fun done s => Progress G F V (notePaths F V clock r) r
        (done.flatMap fun c => [c.1.1, notePath c.1.1 (clock c.2)]) s ∧
      ∀ c ∈ done, StagedWith F s (notePath c.1.1 (clock c.2)) (.text (deletionNote T c.1.1 c.1.2)))
    (fun done c rest s note s' hsplit hdone hstep => ?_)
    ⟨.refl, fun c hc => absurd hc List.not_mem_nil⟩ h
  obtain ⟨rfl, s₁, s₂, hadd, hwrite, hnote⟩ := exec_resolveConflictBySpec_eq_ok hstep
  have hmem : notePath c.1.1 (clock c.2) ∈ notePaths F V clock r := by
    rw [notePaths, hsplit]
    exact List.mem_map_of_mem (by simp)
  have hother : ∀ d ∈ done, notePath d.1.1 (clock d.2) ≠ notePath c.1.1 (clock c.2) := by
    have hnodup := @nodup_notePaths F V clock r hclock
    rw [notePaths, hsplit, List.map_append, List.map_cons, List.nodup_middle, List.nodup_cons]
      at hnodup
    exact fun d hd heq => hnodup.1 (heq ▸ List.mem_append_left _ (List.mem_map_of_mem hd))
  have hprogress : Progress G F V (notePaths F V clock r) r _ s' :=
    (((hdone.1.addSpec hskip hnotes hadd).write hskip hnotes hmem _).addSpec hskip hnotes
      (hwrite ▸ hnote))
  refine ⟨rfl, ?_, ?_⟩
  · rw [List.flatMap_append, List.flatMap_singleton]
    rwa [List.append_assoc] at hprogress
  · intro d hd
    rcases List.mem_append.1 hd with hd | hd
    · have hwritten := ((hdone.2 d hd).addSpec hadd).write hskip (hother d hd)
        (isNotePath_notePath _ _) (deletionNote T c.1.1 c.1.2)
      exact (hwrite ▸ hwritten).addSpec hnote
    · -- the path of a note is a plain pathspec, so the last command adds the note
      obtain rfl := List.mem_singleton.1 hd
      have hfile : s₂.worktree.lookup (notePath d.1.1 (clock d.2)) =
          some (.text (deletionNote T d.1.1 d.1.2)) := by
        rw [hwrite]
        exact AList.lookup_insert _
      have hself := (G.plain _ (notePath d.1.1 (clock d.2)) (plainSpec_notePath _ _)).2 (.inl rfl)
      obtain ⟨hs', hnamed, hindex⟩ := exec_addSpec_eq_ok hnote
      rw [stagedWith_iff]
      refine ⟨?_, (hindex _).1 ⟨hnamed hself (AList.lookup_isSome.1 (hfile ▸ rfl)), hself⟩⟩
      rw [hs']
      exact hfile

end Progress

/-! ### The claim -/

theorem survives_iff_clear (hskip : SkipsNotes F V) (hr : Stopped r) (hclock : StrictMono clock)
    {notes : List Str} {r' : Repo}
    (h : Effect.exec (resolveModifyDeleteBySpec G T F V clock) r = (.ok notes, r')) :
    Survives F V r notes r' ↔ Clear G F V clock r := by
  obtain ⟨rfl, hprogress, hstaged⟩ := progress_of_resolveModifyDelete hskip hclock h
  have hnotes : ∀ n ∈ notePaths F V clock r, IsNotePath n := fun n hn => isNotePath_of_mem hn
  have hentry : ∀ p, p ∉ notePaths F V clock r → r'.entryFor F p = r.entryFor F p :=
    fun p hp => entryFor_congr hskip hnotes hprogress.worktree hp
  constructor
  · intro hs
    have hfree : ∀ note ∈ notePaths F V clock r, note ∉ r.worktree ∧ note ∉ r.index := by
      intro note hnote
      obtain ⟨c, hc, rfl⟩ := List.mem_map.1 hnote
      exact (forall₂_notePaths.1 hs.noted c hc).free
    refine ⟨hfree, fun c hc => ?_, fun p hp hother spec hspec hfits => ?_⟩
    · -- the entry of the path changed, so something was added there
      obtain ⟨hfile, stages, hstages⟩ := hr.of_mem hc
      have hnot : c.1 ∉ notePaths F V clock r := fun hmem => (hfree _ hmem).1 hfile
      by_contra hnone
      have hsame := hprogress.index c.1 hnot fun htouched => hnone htouched.2
      obtain ⟨_, -, -, blob, -, hblob⟩ := hs.kept c hc
      rw [hsame, hstages] at hblob
      cases hblob
    · have hnot : p ∉ notePaths F V clock r := fun hmem => by
        rcases Repo.mem_knownPaths.1 hp with hindex | hfile
        · exact (hfree p hmem).2 hindex
        · exact (hfree p hmem).1 hfile.1
      have hcurrent := hprogress.current p hnot ⟨hp, spec, hspec, hfits⟩
      rwa [Repo.IsCurrent, hentry p hnot, hs.index p hnot hother] at hcurrent
  · intro hclear
    have hfree : ∀ p, p ∈ r.worktree → p ∉ notePaths F V clock r :=
      fun p hp hmem => (hclear.free p hmem).1 hp
    have hkept : ∀ c ∈ modifyDeleteConflicts F V r, ∃ content,
        r.worktree.lookup c.1 = some content ∧ StagedWith F r' c.1 content := by
      intro c hc
      obtain ⟨hfile, stages, hstages⟩ := hr.of_mem hc
      have hnot := hfree c.1 hfile
      obtain ⟨content, hcontent⟩ := Option.isSome_iff_exists.1 (AList.lookup_isSome.2 hfile)
      have hknown : c.1 ∈ r.knownPaths (V.ignored r) :=
        Repo.mem_knownPaths.2 (.inl (AList.lookup_isSome.1 (hstages ▸ rfl)))
      exact ⟨content, hcontent, stagedWith_iff.2 ⟨(hprogress.worktree _ hnot).trans hcontent,
        hprogress.current _ hnot ⟨hknown, hclear.found c hc⟩⟩⟩
    have hindex : ∀ p, p ∉ notePaths F V clock r →
        p ∉ (modifyDeleteConflicts F V r).map Prod.fst → r'.index.lookup p = r.index.lookup p := by
      intro p hnot hother
      by_cases htouched : Touched G V r (specs F V clock r) p
      · obtain ⟨hp, spec, hspec, hfits⟩ := htouched
        have hafter := hprogress.current p hnot ⟨hp, spec, hspec, hfits⟩
        have hbefore := hclear.current p hp hother spec hspec hfits
        rw [Repo.IsCurrent, hentry p hnot] at hafter
        exact Except.ok.inj (hafter.symm.trans hbefore)
      · exact hprogress.index p hnot htouched
    refine ⟨?_, hkept, nodup_modifyDeleteConflicts hr, forall₂_notePaths.2 fun c hc => ?_,
      nodup_notePaths hclock, hprogress.worktree, hindex⟩
    · -- a conflict that is left is one of those that were there
      refine List.eq_nil_iff_forall_not_mem.2 fun c hc => ?_
      obtain ⟨p, stages, hstages, hkind, hpath⟩ := mem_modifyDeleteConflicts.1 hc
      have hnot : p ∉ notePaths F V clock r := by
        intro hmem
        obtain ⟨d, hd, rfl⟩ := List.mem_map.1 hmem
        obtain ⟨blob, -, hblob⟩ := (hstaged d hd).entry
        rw [hblob] at hstages
        cases hstages
      by_cases hother : p ∈ (modifyDeleteConflicts F V r).map Prod.fst
      · obtain ⟨d, hd, rfl⟩ := List.mem_map.1 hother
        obtain ⟨content, -, -, blob, -, hblob⟩ := hkept d hd
        rw [hblob] at hstages
        cases hstages
      · rw [hindex p hnot hother] at hstages
        refine hother (List.mem_map.2 ⟨(p, c.2), mem_modifyDeleteConflicts.2
          ⟨p, stages, hstages, hkind, ?_⟩, rfl⟩)
        exact quotePath_of_unquoted (hr.unquoted p ⟨stages, hstages⟩)
    · have hmem : notePath c.1.1 (clock c.2) ∈ notePaths F V clock r := List.mem_map_of_mem hc
      exact ⟨(isNotePath_notePath _ _).1, hclear.free _ hmem, _, hstaged c hc,
        parse_deletionNote T c.1.1 c.1.2⟩

/-- Where the paths in conflict are plain and nothing is below what is added, it is enough that
nothing is at the path of a note. -/
theorem clear_iff_free (hplain : ∀ c ∈ modifyDeleteConflicts F V r, PlainSpec c.1)
    (hbelow : ∀ spec ∈ specs F V clock r, ∀ p ∈ r.knownPaths (V.ignored r),
      ¬ spec ++ ['/'] <+: p) :
    Clear G F V clock r ↔
      ∀ note ∈ notePaths F V clock r, note ∉ r.worktree ∧ note ∉ r.index := by
  refine ⟨Clear.free, fun hfree => ⟨hfree, fun c hc => ?_, fun p hp hother spec hspec hfits => ?_⟩⟩
  · obtain ⟨i, hi⟩ : ∃ i, (c, i) ∈ (modifyDeleteConflicts F V r).zipIdx := by
      rw [← List.zipIdx_map_fst 0 (modifyDeleteConflicts F V r), List.mem_map] at hc
      obtain ⟨⟨_, i⟩, hi, rfl⟩ := hc
      exact ⟨i, hi⟩
    exact ⟨c.1, List.mem_flatMap.2 ⟨_, hi, List.mem_cons_self⟩,
      (G.plain _ _ (hplain c hc)).2 (.inl rfl)⟩
  · obtain ⟨c, hc, hmem⟩ := List.mem_flatMap.1 hspec
    have hconflict := List.fst_mem_of_mem_zipIdx hc
    rw [List.mem_cons, List.mem_singleton] at hmem
    have hspecPlain : PlainSpec spec := by
      rcases hmem with rfl | rfl
      · exact hplain _ hconflict
      · exact plainSpec_notePath _ _
    obtain rfl := ((G.plain _ _ hspecPlain).1 hfits).resolve_right (hbelow spec hspec p hp)
    rcases hmem with rfl | rfl
    · exact absurd (List.mem_map_of_mem hconflict) hother
    · have hnote := hfree _ (List.mem_map_of_mem hc)
      rcases Repo.mem_knownPaths.1 hp with hindex | hfile
      · exact absurd hindex hnote.2
      · exact absurd hfile.1 hnote.1

/-! ### The loop of a sync -/

/-- The paths of the index and of the worktree are among these. -/
def Within (paths : Str → Prop) (s : Repo) : Prop :=
  ∀ p, p ∈ s.index ∨ p ∈ s.worktree → paths p

theorem keeps_within_stagePath {paths : Str → Prop} {path : Str} (hpath : paths path)
    (ignored : Str → Bool) : Effect.Keeps (Within paths) (stagePath F ignored path) := by
  intro s hs
  rcases exec_stagePath F ignored path s with h | ⟨entry, -, h⟩
  · rwa [h]
  · rw [h]
    rintro p (hp | hp)
    · rw [← AList.lookup_isSome, Repo.lookup_setAt] at hp
      split_ifs at hp with heq
      · exact heq ▸ hpath
      · exact hs p (.inl (AList.lookup_isSome.1 hp))
    · exact hs p (.inr hp)

theorem keeps_within_writeInboxFile {paths : Str → Prop} {path : Str} (hpath : paths path)
    (text : Str) : Effect.Keeps (Within paths) (writeInboxFile path text) := by
  intro s hs
  rw [writeInboxFile, Effect.exec_get_bind]
  split_ifs
  · exact hs
  · rintro p (hp | hp)
    · exact hs p (.inl hp)
    · rcases (AList.mem_insert _).1 hp with rfl | hp
      · exact hpath
      · exact hs p (.inr hp)

/-- **The loop is the one of a sync** when no pathspec of it fits a path but its own. -/
theorem exec_resolveModifyDeleteBySpec_eq
    (halone : ∀ spec ∈ specs F V clock r, G.fits spec spec = true ∧
      ∀ p, p ∈ r.index ∨ p ∈ r.worktree ∨ p ∈ notePaths F V clock r →
        G.fits spec p = true → p = spec)
    (hr : Stopped r) :
    Effect.exec (resolveModifyDeleteBySpec G T F V clock) r =
      Effect.exec (resolveModifyDeleteConflicts T F V clock) r := by
  rw [resolveModifyDeleteBySpec, resolveModifyDeleteConflicts, Effect.exec_get_bind,
    Effect.exec_get_bind]
  -- no path that is there, nor that of a note, fits the pathspec of another one
  have hadd : ∀ spec ∈ specs F V clock r, ∀ ignored s,
      Within (fun p => p ∈ r.index ∨ p ∈ r.worktree ∨ p ∈ notePaths F V clock r) s →
        Effect.exec (addSpec G F ignored spec) s = Effect.exec (stagePath F ignored spec) s :=
    fun spec hspec ignored s hs => exec_addSpec_eq_stagePath (halone spec hspec).1
      fun p hp => (halone spec hspec).2 p (hs p hp)
  refine Effect.exec_mapM_congr
    (I := Within fun p => p ∈ r.index ∨ p ∈ r.worktree ∨ p ∈ notePaths F V clock r)
    (fun c hc => ?_) (fun c hc s hs => ?_) fun p hp => hp.imp_right .inl
  all_goals
    have hfile := (hr.of_mem (List.fst_mem_of_mem_zipIdx hc)).1
    have hnote : notePath c.1.1 (clock c.2) ∈ notePaths F V clock r := List.mem_map_of_mem hc
  · exact Effect.Keeps.get.bind fun s =>
      (keeps_within_stagePath (.inr (.inl hfile)) _).bind fun _ =>
        (keeps_within_writeInboxFile (.inr (.inr hnote)) _).bind fun _ =>
          Effect.Keeps.get.bind fun s =>
            (keeps_within_stagePath (.inr (.inr hnote)) _).bind fun _ => .pure _
  · rw [resolveConflictBySpec, resolveConflict, Effect.exec_get_bind, Effect.exec_get_bind]
    refine Effect.exec_bind_congr
      (hadd _ (List.mem_flatMap.2 ⟨c, hc, List.mem_cons_self⟩) _ s hs) fun _ s₁ h₁ => ?_
    have hs₁ := keeps_within_stagePath (F := F) (.inr (.inl hfile)) (V.ignored s) s hs
    rw [h₁] at hs₁
    refine Effect.exec_bind_congr rfl fun _ s₂ h₂ => ?_
    have hs₂ := keeps_within_writeInboxFile (.inr (.inr hnote))
      (deletionNote T c.1.1 c.1.2) s₁ hs₁
    rw [h₂] at hs₂
    rw [Effect.exec_get_bind, Effect.exec_get_bind]
    exact Effect.exec_bind_congr (hadd _ (List.mem_flatMap.2 ⟨c, hc, by simp⟩) _ s₂ hs₂)
      fun _ _ _ => rfl

/-! ### The states that a merge leaves -/

/-- Where git stops at a deletion it leaves the modification in the worktree, and the paths that it
leaves unmerged need no quotes. -/
def LeavesModified (path : Str) : FileMerge → Prop
  | .settled _ => True
  | .driven _ _ _ => Unquoted path
  | .stopped stages file => Unquoted path ∧ (ModifyDelete stages → file.isSome = true)

/-- **A merge that stops leaves the loop a state that it can start from.** -/
theorem stopped_of_mergeBranch {driver : Driver} {m : Incoming} {r' : Repo}
    (hidle : r.hasUnmerged = false)
    (hfiles : ∀ path file, m.files.lookup path = some file → LeavesModified path file)
    (h : Effect.exec (mergeBranch F driver m) r = (.ok false, r')) : Stopped r' := by
  have hmerged : ∀ p, ¬ r.IsUnmerged p := fun p hp => by
    rw [(Repo.hasUnmerged_iff r).2 ⟨p, hp⟩] at hidle
    cases hidle
  have hstart : Stopped r := ⟨fun p hp => absurd hp (hmerged p), fun p stages hp _ =>
    absurd ⟨stages, hp⟩ (hmerged p)⟩
  -- what is left unmerged is a path of the merge
  have hfile : ∀ p stages, (settleFiles F driver r m.files).index.lookup p =
      some (.unmerged stages) → Unquoted p ∧
        (ModifyDelete stages → p ∈ (settleFiles F driver r m.files).worktree) := by
    intro p stages hp
    cases hlookup : m.files.lookup p with
    | none =>
      have hmem : p ∉ m.files := fun hmem => by
        rw [← AList.lookup_isSome, hlookup] at hmem
        cases hmem
      rw [(lookup_settleFiles_of_notMem F driver r hmem).1] at hp
      exact absurd ⟨stages, hp⟩ (hmerged p)
    | some file =>
      obtain ⟨hindex, hworktree⟩ := lookup_settleFiles F driver r m.files hlookup
      rw [hindex] at hp
      rw [← AList.lookup_isSome, hworktree]
      have hleaves := hfiles p file hlookup
      cases file with
      | settled version =>
        obtain ⟨v, -, hv⟩ := Option.map_eq_some_iff.1 hp
        cases hv
      | driven base ours theirs =>
        refine ⟨hleaves, fun hmodified => ?_⟩
        obtain ⟨deletedBy, hkind⟩ := hmodified
        rw [FileMerge.outcome] at hp
        cases hd : driver (base.getD (.text [])) ours theirs with
        | some merged =>
          rw [hd] at hp
          cases hp
        | none =>
          rw [hd] at hp
          cases hp
          cases base <;> cases hkind
      | stopped stages' file =>
        cases hp
        exact hleaves
  rw [mergeBranch, Effect.exec_get_bind] at h
  split_ifs at h
  · cases h
    exact hstart
  · cases hk : m.kind <;> rw [hk] at h <;> dsimp only at h
    case refused =>
      cases h
      exact hstart
    case upToDate => cases h
    case fastForward => cases h
    case threeWay =>
      split_ifs at h
      · cases h
        refine ⟨fun p hp => ?_, fun p stages hp => (hfile p stages hp).2⟩
        obtain ⟨stages, hp⟩ := hp
        exact (hfile p stages hp).1
      · cases h

/-! ### The result -/

/-- One document is deleted and modified, and there are two versions of `ab.md`. -/
def exampleFiles (path : String) : AList fun _ : Str => FileMerge :=
  (AList.singleton path.toList (.stopped
      ⟨some (exampleDoc "o"), some (exampleDoc "a"), none, .inl rfl⟩
      (some (exampleDoc "a")))).insert "ab.md".toList
    (.stopped ⟨some (exampleDoc "o"), some (exampleDoc "a"), some (exampleDoc "b"), .inl rfl⟩
      (some (exampleDoc "?")))

/-- The merge of a branch that deleted the document. -/
def exampleDeletion (path : String) : Incoming :=
  ⟨"origin/sync/b".toList, .root ∅ unsigned, .threeWay, exampleFiles path⟩

/-- What the merge leaves of a store without a commit. -/
def exampleStopped (path : String) : Repo :=
  (Effect.exec (mergeBranch exampleFilters (mergeDriver .asciiOnly) (exampleDeletion path))
    emptyStore).2

/-- The loop after this merge. -/
def exampleResolve : Effect Repo Str (List Str) :=
  resolveModifyDeleteBySpec globPathspecs .asciiOnly exampleFilters exampleView id

theorem stopped_exampleStopped {path : String} (hpath : Unquoted path.toList)
    (h : (Effect.exec (mergeBranch exampleFilters (mergeDriver .asciiOnly) (exampleDeletion path))
      emptyStore).1 = .ok false) : Stopped (exampleStopped path) := by
  have hrun : Effect.exec (mergeBranch exampleFilters (mergeDriver .asciiOnly)
      (exampleDeletion path)) emptyStore = (.ok false, exampleStopped path) :=
    Prod.ext h (by rw [exampleStopped])
  refine stopped_of_mergeBranch (by decide) (fun p file hfile => ?_) hrun
  change (exampleFiles path).lookup p = some file at hfile
  rw [exampleFiles] at hfile
  by_cases hp : p = "ab.md".toList
  · subst hp
    rw [AList.lookup_insert] at hfile
    obtain rfl := Option.some.inj hfile
    exact ⟨by decide, fun _ => rfl⟩
  · rw [AList.lookup_insert_ne hp] at hfile
    obtain ⟨rfl, hstopped⟩ := Sigma.mk.inj (List.mem_singleton.1 (AList.mem_lookup_iff.1 hfile))
    obtain rfl := eq_of_heq hstopped
    exact ⟨hpath, fun _ => rfl⟩

theorem rulesElsewhere_exampleView : RulesElsewhere exampleView := fun _ _ _ => rfl

theorem modifyDeleteConflicts_exampleStopped :
    modifyDeleteConflicts exampleFilters exampleView (exampleStopped "a.md") =
        [("a.md".toList, .theirs)] ∧
      modifyDeleteConflicts exampleFilters exampleView (exampleStopped "a*.md") =
        [("a*.md".toList, .theirs)] := by
  constructor <;>
  · rw [modifyDeleteConflicts, conflicts_eq, Repo.trackedPaths, sortPaths,
      List.mergeSort_of_pairwise (by decide +kernel)]
    decide +kernel

end Cli

end Wkp
