import Wkp.Git.Repo
import Wkp.Lib.Path

/-!
# Pathspecs

`git add -- path` reads the path as a pathspec, which may fit other paths too.

* `Git.Pathspecs` : which paths a pathspec fits; a plain one fits itself and what is below it.
* `Git.addSpec` : every path that the pathspec fits is staged as the worktree has it;
  `Git.exec_addSpec_eq_ok` says what that leaves.
* `Git.exec_addSpec_eq_stagePath` : a pathspec that fits no other path stages its own.
-/

namespace Wkp

open Rust

namespace Git

/-- A pathspec without magic and without wildcards, and with nothing in it that git normalizes. -/
structure PlainSpec (spec : Str) : Prop where
  /-- It does not begin with the colon of pathspec magic. -/
  head : spec.head? ≠ some ':'
  /-- There are no wildcards and no escapes in it. -/
  chars : ∀ c ∈ spec, c ≠ '*' ∧ c ≠ '?' ∧ c ≠ '[' ∧ c ≠ '\\'
  /-- Its pieces are plain names. -/
  pieces : ∀ piece ∈ split '/' spec, Path.PlainName piece

/-- How git reads pathspecs. -/
structure Pathspecs where
  /-- The pathspec fits the path. -/
  fits : Str → Str → Bool
  /-- A plain one fits its own path and the paths below it. -/
  plain : ∀ spec path, PlainSpec spec →
    (fits spec path = true ↔ path = spec ∨ spec ++ ['/'] <+: path)

/-- A path fits a pattern in which a star stands for any text, and a question mark for any
character. -/
def wildmatch : Str → Str → Bool
  | [], path => path.isEmpty
  | c :: spec, path =>
    if c = '*' then path.tails.any (wildmatch spec)
    else match path with
      | [] => false
      | d :: path => decide (c = '?' ∨ c = d) && wildmatch spec path

theorem wildmatch_iff_of_plain {spec : Str} (h : ∀ c ∈ spec, c ≠ '*' ∧ c ≠ '?') {path : Str} :
    wildmatch spec path = true ↔ path = spec := by
  induction spec generalizing path with
  | nil => rw [wildmatch, List.isEmpty_iff]
  | cons c spec ih =>
    obtain ⟨⟨hstar, hmark⟩, hrest⟩ := List.forall_mem_cons.1 h
    rw [wildmatch.eq_def]
    dsimp only
    rw [if_neg hstar]
    cases path with
    | nil => simp
    | cons d path =>
      dsimp only
      rw [Bool.and_eq_true, decide_eq_true_iff, ih hrest, or_iff_right hmark, List.cons.injEq,
        eq_comm (a := c)]

/-- Pathspecs with stars and question marks, for examples. -/
def globPathspecs : Pathspecs where
  fits spec path := decide (path = spec ∨ spec ++ ['/'] <+: path) || wildmatch spec path
  plain spec path h := by
    rw [Bool.or_eq_true, decide_eq_true_iff,
      wildmatch_iff_of_plain fun c hc => ⟨(h.chars c hc).1, (h.chars c hc).2.1⟩]
    tauto

namespace Repo

variable (F : Filters) (r : Repo)

/-- The paths in the index, and those in the worktree that are not ignored. -/
def knownPaths (ignored : Str → Bool) : List Str :=
  r.index.keys ++ r.worktree.keys.filter fun p => p ∉ r.index.keys ∧ ignored p = false

/-- What is staged at a path for what the worktree has there. -/
def entryFor (path : Str) : Except Str (Option IndexEntry) :=
  match r.worktree.lookup path with
  | some content => (F.clean r.worktree path content).map fun blob => some (.staged blob)
  | none => .ok none

/-- Stage one more path. -/
def stageNext (index : AList fun _ : Str => IndexEntry) (path : Str) :
    Except Str (AList fun _ : Str => IndexEntry) :=
  (r.entryFor F path).map (setAt index path)

/-- The index has the path as the worktree does. -/
def IsCurrent (path : Str) : Prop := r.entryFor F path = .ok (r.index.lookup path)

end Repo

/-- `git add -- spec`. -/
def addSpec (G : Pathspecs) (F : Filters) (ignored : Str → Bool) (spec : Str) :
    Effect Repo Str Unit := do
  let r ← get
  let paths := (r.knownPaths ignored).filter fun p => G.fits spec p
  -- a file that is named as it is must not be ignored, those that a wildcard finds are passed over
  if G.fits spec spec = true ∧ spec ∈ r.worktree ∧ spec ∉ r.knownPaths ignored then
    throw ("The following paths are ignored by one of your .gitignore files:\n".toList ++ spec)
  else if paths = [] then
    throw ("fatal: pathspec '".toList ++ spec ++ "' did not match any files".toList)
  else match paths.foldlM (r.stageNext F) r.index with
    | .error e => throw e
    | .ok index => set { r with index := index }

/-! ### What is staged -/

section Staged

variable {G : Pathspecs} {F : Filters} {r : Repo} {ignored : Str → Bool}

theorem Repo.mem_knownPaths {p : Str} :
    p ∈ r.knownPaths ignored ↔ p ∈ r.index ∨ p ∈ r.worktree ∧ ignored p = false := by
  rw [Repo.knownPaths, List.mem_append, List.mem_filter, decide_eq_true_iff, AList.mem_keys,
    AList.mem_keys]
  tauto

theorem Repo.nodup_knownPaths : (r.knownPaths ignored).Nodup := by
  refine List.Nodup.append r.index.keys_nodup (r.worktree.keys_nodup.filter _) ?_
  intro p hindex hworktree
  exact (decide_eq_true_iff.1 (List.mem_filter.1 hworktree).2).1 hindex

theorem Repo.foldlM_stageNext_eq_ok {paths : List Str}
    {index index' : AList fun _ : Str => IndexEntry}
    (h : paths.foldlM (r.stageNext F) index = .ok index') (p : Str) :
    (p ∈ paths → r.entryFor F p = .ok (index'.lookup p)) ∧
      (p ∉ paths → index'.lookup p = index.lookup p) := by
  induction paths generalizing index with
  | nil =>
    cases h
    exact ⟨fun hp => absurd hp List.not_mem_nil, fun _ => rfl⟩
  | cons q paths ih =>
    rw [List.foldlM_cons, Except.bind_eq_ok] at h
    obtain ⟨next, hnext, h⟩ := h
    obtain ⟨hin, hout⟩ := ih h
    obtain ⟨entry, hentry, rfl⟩ : ∃ entry, r.entryFor F q = .ok entry ∧
        Repo.setAt index q entry = next := by
      rw [Repo.stageNext] at hnext
      cases he : r.entryFor F q with
      | error e =>
        rw [he] at hnext
        cases hnext
      | ok entry =>
        rw [he] at hnext
        exact ⟨entry, rfl, Except.ok.inj hnext⟩
    rw [Repo.lookup_setAt] at hout
    constructor
    · intro hp
      by_cases hmem : p ∈ paths
      · exact hin hmem
      · obtain rfl : p = q := (List.mem_cons.1 hp).resolve_right hmem
        rw [hout hmem, if_pos rfl, hentry]
    · intro hp
      rw [List.mem_cons, not_or] at hp
      rw [hout hp.2, if_neg hp.1]

/-- **What `git add` leaves**: the known paths that the pathspec fits are current, and the entries
of the other paths are as they were. -/
theorem exec_addSpec_eq_ok {spec : Str} {u : Unit} {r' : Repo}
    (h : Effect.exec (addSpec G F ignored spec) r = (.ok u, r')) :
    r' = { r with index := r'.index } ∧
      (G.fits spec spec = true → spec ∈ r.worktree → spec ∈ r.knownPaths ignored) ∧ ∀ p,
      (p ∈ r.knownPaths ignored ∧ G.fits spec p = true → r'.IsCurrent F p) ∧
        (¬ (p ∈ r.knownPaths ignored ∧ G.fits spec p = true) →
          r'.index.lookup p = r.index.lookup p) := by
  rw [addSpec, Effect.exec_get_bind] at h
  dsimp only at h
  split_ifs at h with hignored
  · cases h
  · cases h
  · cases hfold : ((r.knownPaths ignored).filter fun p => G.fits spec p).foldlM (r.stageNext F)
        r.index with
    | error e =>
      rw [hfold] at h
      cases h
    | ok index =>
      rw [hfold] at h
      cases h
      refine ⟨rfl, fun hself hfile => by_contra fun hnot => hignored ⟨hself, hfile, hnot⟩,
        fun p => ?_⟩
      rw [← List.mem_filter (p := fun p => G.fits spec p)]
      exact Repo.foldlM_stageNext_eq_ok hfold p

theorem Repo.IsCurrent.addSpec {spec p : Str} {u : Unit} {r' : Repo} (hp : r.IsCurrent F p)
    (h : Effect.exec (addSpec G F ignored spec) r = (.ok u, r')) : r'.IsCurrent F p := by
  obtain ⟨hr', -, hindex⟩ := exec_addSpec_eq_ok h
  by_cases hadd : p ∈ r.knownPaths ignored ∧ G.fits spec p = true
  · exact (hindex p).1 hadd
  · rw [hr', Repo.IsCurrent]
    exact hp.trans (congrArg Except.ok ((hindex p).2 hadd).symm)

/-- **A pathspec that fits its own path alone stages that path.** -/
theorem exec_addSpec_eq_stagePath {spec : Str} (hself : G.fits spec spec = true)
    (hother : ∀ p, p ∈ r.index ∨ p ∈ r.worktree → G.fits spec p = true → p = spec) :
    Effect.exec (addSpec G F ignored spec) r = Effect.exec (stagePath F ignored spec) r := by
  -- of all paths that git knows, only the path itself fits
  have hfits : ∀ p ∈ r.knownPaths ignored, (G.fits spec p = true ↔ p = spec) := by
    refine fun p hp => ⟨hother p ?_, fun h => h ▸ hself⟩
    exact (Repo.mem_knownPaths.1 hp).imp_right And.left
  have hpaths : (r.knownPaths ignored).filter (fun p => G.fits spec p) =
      if spec ∈ r.knownPaths ignored then [spec] else [] := by
    rw [List.filter_congr (q := fun p => decide (p = spec)) fun p hp => by
      rw [Bool.eq_iff_iff, hfits p hp, decide_eq_true_iff], List.filter_eq]
    split_ifs with hmem
    · rw [List.count_eq_one_of_mem Repo.nodup_knownPaths hmem]
      rfl
    · rw [List.count_eq_zero_of_not_mem hmem]
      rfl
  rw [addSpec, stagePath, Effect.exec_get_bind, Effect.exec_get_bind]
  dsimp only
  rw [hpaths]
  have hworktree : spec ∈ r.worktree ↔ (r.worktree.lookup spec).isSome = true :=
    AList.lookup_isSome.symm
  -- a file is staged unless it is ignored; a path without a file is staged as removed
  cases hfile : r.worktree.lookup spec with
  | some content =>
    have hmem : spec ∈ r.worktree := hworktree.2 (hfile ▸ rfl)
    by_cases hignored : ignored spec = true ∧ spec ∉ r.index
    · have hunknown : spec ∉ r.knownPaths ignored := by
        rw [Repo.mem_knownPaths]
        rintro (hindex | ⟨-, hnot⟩)
        · exact hignored.2 hindex
        · exact Bool.false_ne_true (hnot.symm.trans hignored.1)
      dsimp only
      rw [if_pos ⟨hself, hmem, hunknown⟩, if_pos hignored]
    · have hknown : spec ∈ r.knownPaths ignored := by
        rw [Repo.mem_knownPaths]
        rw [not_and_or, Bool.not_eq_true, not_not] at hignored
        exact hignored.symm.imp_right fun h => ⟨hmem, h⟩
      dsimp only
      rw [if_neg fun h => h.2.2 hknown, if_pos hknown, if_neg (List.cons_ne_nil _ _),
        if_neg hignored, List.foldlM_cons, Repo.stageNext, Repo.entryFor, hfile]
      dsimp only
      cases F.clean r.worktree spec content with
      | error e => rfl
      | ok blob => rfl
  | none =>
    have hmem : spec ∉ r.worktree := fun h => by
      rw [hworktree, hfile] at h
      cases h
    dsimp only
    rw [if_neg fun h => hmem h.2.1]
    by_cases hindex : spec ∈ r.index
    · rw [if_pos (Repo.mem_knownPaths.2 (.inl hindex)), if_neg (List.cons_ne_nil _ _),
        if_pos hindex, List.foldlM_cons, Repo.stageNext, Repo.entryFor, hfile]
      rfl
    · have hunknown : spec ∉ r.knownPaths ignored := by
        rw [Repo.mem_knownPaths]
        exact not_or.2 ⟨hindex, fun h => hmem h.1⟩
      rw [if_neg hunknown, if_pos rfl, if_neg hindex]

end Staged

end Git

end Wkp
