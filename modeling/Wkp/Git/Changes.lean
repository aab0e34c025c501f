import Wkp.Git.Repo
import Wkp.Lib.Table

/-!
# What the changes are

The members of the change set that `detect_changes` reads off the status, as facts of the repository.

* `Git.mem_renamed`, `Git.mem_deleted`, `Git.mem_added`, `Git.mem_modified` : the four classes.
* `Git.mem_listTrackedFiles` : the paths of the index.
-/

namespace Wkp

open Rust

namespace Git

section

variable {F : Filters} {V : View} {r : Repo}

/-! ### Paths as git prints them -/

theorem eq_of_quotePath_eq {p x : Str} (hx : Unquoted x) (h : quotePath p = x) : p = x := by
  by_cases hp : Unquoted p
  · rwa [quotePath_of_unquoted hp] at h
  · have hlast := getLast?_quotePath hp
    rw [h] at hlast
    exact absurd (hx _ (List.mem_of_getLast? hlast)) (by decide)

theorem Repo.mem_untrackedPaths {ignored : Str → Bool} {p : Str} :
    p ∈ r.untrackedPaths ignored ↔ p ∈ r.worktree ∧ p ∉ r.index ∧ ignored p = false := by
  rw [Repo.untrackedPaths, mem_sortPaths, List.mem_filter, decide_eq_true_iff, AList.mem_keys,
    AList.mem_keys]

/-! ### Codes -/

theorem Repo.diffCode_eq_added {old new : Option Content} :
    Repo.diffCode old new = .added ↔ old = none ∧ new.isSome = true := by
  cases old <;> cases new <;> simp [Repo.diffCode]
  split_ifs <;> simp

theorem Repo.diffCode_eq_deleted {old new : Option Content} :
    Repo.diffCode old new = .deleted ↔ old.isSome = true ∧ new = none := by
  cases old <;> cases new <;> simp [Repo.diffCode]
  split_ifs <;> simp

theorem Repo.not_isUnmerged_of_stagedAt {p : Str} (h : (r.stagedAt p).isSome = true) :
    p ∈ r.index ∧ ¬ r.IsUnmerged p := by
  obtain ⟨blob, hblob⟩ := Option.isSome_iff_exists.1 h
  rw [Repo.stagedAt_eq_some] at hblob
  refine ⟨AList.lookup_isSome.1 (by rw [hblob]; rfl), ?_⟩
  rintro ⟨stages, hstages⟩
  rw [hblob] at hstages
  cases hstages

theorem Repo.stagedAt_isSome {p : Str} :
    (r.stagedAt p).isSome = true ↔ p ∈ r.index ∧ ¬ r.IsUnmerged p := by
  refine ⟨Repo.not_isUnmerged_of_stagedAt, ?_⟩
  rintro ⟨hmem, hmerged⟩
  obtain ⟨entry, hentry⟩ := Option.isSome_iff_exists.1 (AList.lookup_isSome.2 hmem)
  cases entry with
  | staged blob => rw [r.stagedAt_eq_some.2 hentry]; rfl
  | unmerged stages => exact absurd ⟨stages, hentry⟩ hmerged

theorem Repo.stagedCode_eq_added {p : Str} :
    r.stagedCode p = .added ↔ p ∉ r.headTree ∧ p ∈ r.index ∧ ¬ r.IsUnmerged p := by
  rw [Repo.stagedCode, Repo.diffCode_eq_added, AList.lookup_eq_none, Repo.stagedAt_isSome]

theorem Repo.stagedCode_eq_deleted {p : Str} (h : ¬ r.IsUnmerged p) :
    r.stagedCode p = .deleted ↔ p ∈ r.headTree ∧ p ∉ r.index := by
  rw [Repo.stagedCode, Repo.diffCode_eq_deleted, AList.lookup_isSome, ← Option.not_isSome_iff_eq_none,
    Repo.stagedAt_isSome]
  simp [h]

theorem Repo.worktreeCode_eq_deleted {p : Str} :
    r.worktreeCode F p = .deleted ↔ (p ∈ r.index ∧ ¬ r.IsUnmerged p) ∧ p ∉ r.worktree := by
  rw [← Repo.stagedAt_isSome, Repo.worktreeCode]
  cases r.stagedAt p with
  | none => simp
  | some blob => simp [Repo.diffCode_eq_deleted, AList.lookup_eq_none]

/-! ### Pairs -/

theorem Repo.Pairing.target_spec (pairing : r.Pairing) {p : Str}
    (h : p ∈ pairing.pairs.map Renamed.target) :
    p ∉ r.headTree ∧ p ∈ r.index ∧ ¬ r.IsUnmerged p := by
  obtain ⟨pair, hpair, rfl⟩ := List.mem_map.1 h
  exact Repo.stagedCode_eq_added.1 (pairing.added pair hpair)

theorem Repo.Pairing.source_spec (pairing : r.Pairing) {p : Str}
    (h : p ∈ pairing.pairs.map Renamed.source) :
    (p ∈ r.headTree ∧ p ∉ r.index) ∧ ¬ r.IsUnmerged p := by
  obtain ⟨pair, hpair, rfl⟩ := List.mem_map.1 h
  have hmerged := pairing.merged pair hpair
  exact ⟨(Repo.stagedCode_eq_deleted hmerged).1 (pairing.deleted pair hpair), hmerged⟩

/-! ### Records and their changes -/

/-- The change of a changed path that is in no pair. -/
def Repo.ordinaryChange (F : Filters) (r : Repo) (p : Str) : Change :=
  if r.stagedCode p = .deleted ∨ r.worktreeCode F p = .deleted then .deleted (quotePath p)
  else if r.stagedCode p = .added then .added (quotePath p)
  else .modified (quotePath p)

/-- The record of a path that is not left unmerged: from its pair, if it is in one. -/
theorem Repo.changedRecord_of_merged {words : Repo.Words} {pairing : r.Pairing} {p : Str}
    (hmerged : ¬ r.IsUnmerged p) : r.changedRecord F words pairing p =
      (pairing.pairs.find? (·.target = p)).elim
        (if p ∈ pairing.pairs.map Renamed.source then none
          else if r.stagedCode p = .unmodified ∧ r.worktreeCode F p = .unmodified then none
          else some (.ordinary (r.stagedCode p) (r.worktreeCode F p) (fields words p 6) p))
        fun pair => some
          (.renamed .renamed (r.worktreeCode F p) (fields words p 7) p pair.source) := by
  unfold changedRecord
  split
  · rename_i stages hstages
    exact absurd ⟨stages, hstages⟩ hmerged
  · cases pairing.pairs.find? (·.target = p) <;> rfl

theorem Repo.changedRecord_change {words : Repo.Words} {pairing : r.Pairing} {p : Str} {c : Change} :
    (∃ record, r.changedRecord F words pairing p = some record ∧ record.change = c) ↔
      ¬ r.IsUnmerged p ∧ ((∃ pair ∈ pairing.pairs, pair.target = p ∧
          c = .renamed ⟨quotePath pair.source, quotePath p⟩) ∨
        p ∉ pairing.pairs.map Renamed.target ∧ p ∉ pairing.pairs.map Renamed.source ∧
          ¬ (r.stagedCode p = .unmodified ∧ r.worktreeCode F p = .unmodified) ∧
          c = r.ordinaryChange F p) := by
  by_cases hmerged : r.IsUnmerged p
  · obtain ⟨stages, hstages⟩ := id hmerged
    simp [changedRecord, hstages, hmerged]
  rw [Repo.changedRecord_of_merged hmerged]
  -- the pair whose new path this is, if there is one
  cases hfind : pairing.pairs.find? (·.target = p) with
  | some pair =>
    obtain ⟨hpair, htarget⟩ := (Table.Keyed.find?_eq_some_iff pairing.nodup).1 hfind
    have hpaired : p ∈ pairing.pairs.map Renamed.target := List.mem_map.2 ⟨pair, hpair, htarget⟩
    constructor
    · rintro ⟨record, hrecord, rfl⟩
      obtain rfl := Option.some.inj hrecord
      exact ⟨hmerged, .inl ⟨pair, hpair, htarget, rfl⟩⟩
    · rintro ⟨-, ⟨pair', hpair', htarget', rfl⟩ | ⟨htargets, -⟩⟩
      · rw [Table.Keyed.eq_of_key_eq pairing.nodup hpair' hpair (htarget'.trans htarget.symm)]
        exact ⟨_, rfl, rfl⟩
      · exact absurd hpaired htargets
  | none =>
    have hnone := Table.find?_eq_none_iff.1 hfind
    have htargets : p ∉ pairing.pairs.map Renamed.target := by
      intro h
      obtain ⟨pair, hpair, htarget⟩ := List.mem_map.1 h
      exact hnone pair hpair htarget
    have hpairs : ¬ ∃ pair ∈ pairing.pairs, pair.target = p ∧
        c = .renamed ⟨quotePath pair.source, quotePath p⟩ := by
      rintro ⟨pair, hpair, htarget, -⟩
      exact hnone pair hpair htarget
    rw [Option.elim_none]
    split_ifs with hsource hclean
    · simp [hpairs, hsource]
    · simp [hpairs, hclean]
    · simp only [hmerged, hpairs, htargets, hsource, hclean, not_false_eq_true, true_and, false_or,
        Option.some.injEq, exists_eq_left']
      exact eq_comm

theorem Repo.mem_trackedPaths_of_code {p : Str}
    (h : ¬ (r.stagedCode p = .unmodified ∧ r.worktreeCode F p = .unmodified)) :
    p ∈ r.trackedPaths := by
  rw [Repo.mem_trackedPaths]
  by_contra hnot
  obtain ⟨hindex, hhead⟩ := not_or.1 hnot
  have hstaged : r.stagedAt p = none := by
    rw [Repo.stagedAt, AList.lookup_eq_none.2 hindex]
  refine h ⟨?_, ?_⟩
  · rw [Repo.stagedCode, hstaged, AList.lookup_eq_none.2 hhead, Repo.diffCode]
  · rw [Repo.worktreeCode, hstaged]

theorem Repo.Pairing.target_mem_trackedPaths (pairing : r.Pairing) {pair : Renamed}
    (h : pair ∈ pairing.pairs) : pair.target ∈ r.trackedPaths := by
  rw [Repo.mem_trackedPaths]
  exact .inl (pairing.target_spec (List.mem_map_of_mem h)).2.1

/-- What the status says: the pairs, the other changed paths, the unmerged and the untracked ones. -/
theorem mem_changes {c : Change} :
    c ∈ (r.statusRecords F V.words (V.pairing r) (V.ignored r)).map Record.change ↔
      (∃ pair ∈ (V.pairing r).pairs, c = .renamed ⟨quotePath pair.source, quotePath pair.target⟩) ∨
      (∃ p, ¬ r.IsUnmerged p ∧ p ∉ (V.pairing r).pairs.map Renamed.target ∧
        p ∉ (V.pairing r).pairs.map Renamed.source ∧
        ¬ (r.stagedCode p = .unmodified ∧ r.worktreeCode F p = .unmodified) ∧
        c = r.ordinaryChange F p) ∨
      (∃ p, r.IsUnmerged p ∧ c = .modified (quotePath p)) ∨
      ∃ p ∈ r.untrackedPaths (V.ignored r), c = .added (quotePath p) := by
  rw [Repo.statusRecords, Repo.trackedRecords, List.map_append, List.map_append, List.mem_append,
    List.mem_append, or_assoc, ← or_assoc (a := ∃ pair ∈ (V.pairing r).pairs, _)]
  refine or_congr ?_ (or_congr ?_ ?_)
  · -- the paths whose record is of one of the first two kinds
    constructor
    · intro hc
      obtain ⟨record, hmem, hrecordc⟩ := List.mem_map.1 hc
      obtain ⟨p, -, hrecord⟩ := List.mem_filterMap.1 hmem
      obtain ⟨hmerged, ⟨pair, hpair, rfl, rfl⟩ | h⟩ :=
        Repo.changedRecord_change.1 ⟨record, hrecord, hrecordc⟩
      · exact .inl ⟨pair, hpair, rfl⟩
      · exact .inr ⟨p, hmerged, h⟩
    · have hrecord : ∀ p ∈ r.trackedPaths, (∃ record,
          r.changedRecord F V.words (V.pairing r) p = some record ∧ record.change = c) →
          c ∈ (r.trackedPaths.filterMap (r.changedRecord F V.words (V.pairing r))).map
            Record.change := by
        rintro p hp ⟨record, hrecord, hc⟩
        exact List.mem_map.2 ⟨record, List.mem_filterMap.2 ⟨p, hp, hrecord⟩, hc⟩
      rintro (⟨pair, hpair, rfl⟩ | ⟨p, hmerged, h⟩)
      · have hmerged := ((V.pairing r).target_spec (List.mem_map_of_mem hpair)).2.2
        exact hrecord _ ((V.pairing r).target_mem_trackedPaths hpair)
          (Repo.changedRecord_change.2 ⟨hmerged, .inl ⟨pair, hpair, rfl, rfl⟩⟩)
      · exact hrecord p (Repo.mem_trackedPaths_of_code h.2.2.1)
          (Repo.changedRecord_change.2 ⟨hmerged, .inr h⟩)
  · simp only [List.mem_map, List.mem_filterMap]
    constructor
    · rintro ⟨record, ⟨p, -, hrecord⟩, rfl⟩
      obtain ⟨stages, hstages, rfl⟩ := Repo.unmergedRecord_eq_some.1 hrecord
      exact ⟨p, ⟨stages, hstages⟩, rfl⟩
    · rintro ⟨p, ⟨stages, hstages⟩, rfl⟩
      have htracked : p ∈ r.trackedPaths := by
        rw [Repo.mem_trackedPaths]
        exact .inl (AList.lookup_isSome.1 (by rw [hstages]; rfl))
      exact ⟨_, ⟨p, htracked, Repo.unmergedRecord_eq_some.2 ⟨stages, hstages, rfl⟩⟩, rfl⟩
  · simp only [List.map_map, List.mem_map, Function.comp_apply]
    constructor
    · rintro ⟨p, hp, rfl⟩
      exact ⟨p, hp, rfl⟩
    · rintro ⟨p, hp, rfl⟩
      exact ⟨p, hp, rfl⟩

/-! ### The four classes -/

theorem detectChanges_eq : detectChanges F V r =
    ((r.statusRecords F V.words (V.pairing r) (V.ignored r)).map Record.change).foldl .add
      ⟨[], [], [], []⟩ := parsePorcelainV2_printStatus _

theorem mem_renamed {c : Renamed} : c ∈ (detectChanges F V r).renamed ↔
    ∃ pair ∈ (V.pairing r).pairs, c = ⟨quotePath pair.source, quotePath pair.target⟩ := by
  rw [detectChanges_eq, (mem_foldl_add _ _).2.2.2, mem_changes]
  have hordinary : ∀ p, Change.renamed c ≠ r.ordinaryChange F p := by
    intro p
    unfold Repo.ordinaryChange
    split_ifs <;> simp
  simp [hordinary]

theorem mem_deleted {x : Str} : x ∈ (detectChanges F V r).deleted ↔ ∃ p, x = quotePath p ∧
    ¬ r.IsUnmerged p ∧ p ∉ (V.pairing r).pairs.map Renamed.target ∧
    p ∉ (V.pairing r).pairs.map Renamed.source ∧
    (r.stagedCode p = .deleted ∨ r.worktreeCode F p = .deleted) := by
  rw [detectChanges_eq, (mem_foldl_add _ _).2.2.1, mem_changes]
  have hordinary : ∀ p, Change.deleted x = r.ordinaryChange F p ↔ x = quotePath p ∧
      (r.stagedCode p = .deleted ∨ r.worktreeCode F p = .deleted) := by
    intro p
    unfold Repo.ordinaryChange
    split_ifs with h <;> simp [h]
  simp only [hordinary, List.not_mem_nil, false_or, reduceCtorEq, and_false, exists_false, or_false]
  constructor
  · rintro ⟨p, hmerged, htarget, hsource, -, hx, hcode⟩
    exact ⟨p, hx, hmerged, htarget, hsource, hcode⟩
  · rintro ⟨p, hx, hmerged, htarget, hsource, hcode⟩
    refine ⟨p, hmerged, htarget, hsource, ?_, hx, hcode⟩
    rintro ⟨hstaged, hworktree⟩
    simp [hstaged, hworktree] at hcode

theorem mem_added {x : Str} : x ∈ (detectChanges F V r).added ↔ ∃ p, x = quotePath p ∧
    (p ∈ r.untrackedPaths (V.ignored r) ∨ p ∉ (V.pairing r).pairs.map Renamed.target ∧
      r.stagedCode p = .added ∧ r.worktreeCode F p ≠ .deleted) := by
  rw [detectChanges_eq, (mem_foldl_add _ _).1, mem_changes]
  have hordinary : ∀ p, Change.added x = r.ordinaryChange F p ↔ x = quotePath p ∧
      r.stagedCode p = .added ∧ r.worktreeCode F p ≠ .deleted := by
    intro p
    unfold Repo.ordinaryChange
    split_ifs with h h'
    · rcases h with h | h <;> simp [h]
    · simp [(not_or.1 h).2, h']
    · simp [h']
  simp only [hordinary, List.not_mem_nil, false_or, reduceCtorEq, and_false, exists_false,
    Change.added.injEq]
  constructor
  · rintro (⟨p, -, htarget, -, -, hx, hcode⟩ | ⟨p, hp, hx⟩)
    · exact ⟨p, hx, .inr ⟨htarget, hcode⟩⟩
    · exact ⟨p, hx, .inl hp⟩
  · rintro ⟨p, hx, hp | ⟨htarget, hcode⟩⟩
    · exact .inr ⟨p, hp, hx⟩
    · obtain ⟨hhead, -, hmerged⟩ := Repo.stagedCode_eq_added.1 hcode.1
      refine .inl ⟨p, hmerged, htarget, fun hsource => ?_, ?_, hx, hcode⟩
      · exact hhead ((V.pairing r).source_spec hsource).1.1
      · rintro ⟨hstaged, -⟩
        rw [hstaged] at hcode
        cases hcode.1

/-- The path is changed, and neither new nor gone. -/
def Repo.Modified (F : Filters) (r : Repo) (p : Str) : Prop :=
  r.stagedCode p ≠ .added ∧ r.stagedCode p ≠ .deleted ∧ r.worktreeCode F p ≠ .deleted ∧
    ¬ (r.stagedCode p = .unmodified ∧ r.worktreeCode F p = .unmodified)

theorem mem_modified {x : Str} : x ∈ (detectChanges F V r).modified ↔ ∃ p, x = quotePath p ∧
    (r.IsUnmerged p ∨ r.Modified F p) := by
  rw [detectChanges_eq, (mem_foldl_add _ _).2.1, mem_changes]
  have hordinary : ∀ p, Change.modified x = r.ordinaryChange F p ↔ x = quotePath p ∧
      r.stagedCode p ≠ .added ∧ r.stagedCode p ≠ .deleted ∧ r.worktreeCode F p ≠ .deleted := by
    intro p
    unfold Repo.ordinaryChange
    split_ifs with h h'
    · rcases h with h | h <;> simp [h]
    · simp [h']
    · obtain ⟨hstaged, hworktree⟩ := not_or.1 h
      simp [h', hstaged, hworktree]
  simp only [hordinary, List.not_mem_nil, false_or, reduceCtorEq, and_false, exists_false,
    Change.modified.injEq, or_false]
  constructor
  · rintro (⟨p, -, -, -, hclean, hx, hadded, hdeleted, hworktree⟩ | ⟨p, hp, hx⟩)
    · exact ⟨p, hx, .inr ⟨hadded, hdeleted, hworktree, hclean⟩⟩
    · exact ⟨p, hx, .inl hp⟩
  · rintro ⟨p, hx, hp | ⟨hadded, hdeleted, hworktree, hclean⟩⟩
    · exact .inr ⟨p, hp, hx⟩
    · by_cases hmerged : r.IsUnmerged p
      · exact .inr ⟨p, hmerged, hx⟩
      · refine .inl ⟨p, hmerged, fun htarget => ?_, fun hsource => ?_, hclean, hx, hadded, hdeleted,
          hworktree⟩
        · exact hadded (Repo.stagedCode_eq_added.2 ((V.pairing r).target_spec htarget))
        · exact hdeleted ((Repo.stagedCode_eq_deleted hmerged).2
            ((V.pairing r).source_spec hsource).1)

theorem mem_listTrackedFiles {x : Str} :
    x ∈ listTrackedFiles r ↔ ∃ p ∈ r.index, quotePath p = x := by
  rw [listTrackedFiles, lines_printNames, List.mem_map]
  refine exists_congr fun p => and_congr_left fun _ => ?_
  rw [List.mem_flatMap]
  constructor
  · rintro ⟨q, -, hp⟩
    unfold entryNames at hp
    split at hp
    · cases hp
    · rename_i blob hq
      obtain rfl := List.mem_singleton.1 hp
      exact AList.lookup_isSome.1 (by rw [hq]; rfl)
    · rename_i stages hq
      obtain ⟨stage, -, hstage⟩ := List.mem_filterMap.1 hp
      obtain ⟨-, -, rfl⟩ := Option.map_eq_some_iff.1 hstage
      exact AList.lookup_isSome.1 (by rw [hq]; rfl)
  · intro hp
    refine ⟨p, mem_sortPaths.2 (AList.mem_keys.2 hp), ?_⟩
    obtain ⟨entry, hentry⟩ := Option.isSome_iff_exists.1 (AList.lookup_isSome.2 hp)
    rw [entryNames, hentry]
    cases entry with
    | staged blob => exact List.mem_singleton_self p
    | unmerged stages =>
      -- at least one stage is there
      refine List.mem_filterMap.2 ?_
      rcases stages.present with h | h | h <;> obtain ⟨blob, hblob⟩ := Option.isSome_iff_exists.1 h
      · exact ⟨_, List.mem_cons_self, by rw [hblob]; rfl⟩
      · exact ⟨_, List.mem_cons_of_mem _ List.mem_cons_self, by rw [hblob]; rfl⟩
      · exact ⟨_, List.mem_cons_of_mem _ (List.mem_cons_of_mem _ List.mem_cons_self),
          by rw [hblob]; rfl⟩

end

end Git

end Wkp
