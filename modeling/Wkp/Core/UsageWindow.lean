import Wkp.Core.UsageReadings
import Mathlib.Algebra.BigOperators.Ring.Finset

/-!
# What a query of the usage store returns

* `Usage.Absorbed` : what a query makes of the rows that it absorbs, in any order.
* `Usage.bucketIn` : the start of the bucket that has a reading, as a query sees it.
* `Usage.Shown` : the buckets that are still in the rings.
* `Usage.liveRows_perm` : **a query absorbs the shown buckets from the cutoff on, each once.**
* `Usage.queryWindow_exact_iff` : **it returns exactly what is in the window, unless the window is as
  long as the finest ring and the ring has lapped its first bucket.**
-/

namespace Wkp

open Rust

namespace Usage

/-! ### Absorbing rows -/

section

variable {V : Type} [Zero V]

/-- The number of the samples in the rows, and the latest of them. -/
structure Latest (rows : List (Row V)) (acc : WindowAcc V) : Prop where
  /-- The number. -/
  n : acc.n = (rows.map fun row => row.agg.n).sum
  /-- The latest is in a bucket that no other is after. -/
  last : (rows = [] ∧ acc.last = 0 ∧ acc.lastAt = none) ∨
    ∃ row ∈ rows, (∀ row' ∈ rows, row'.bucketStart ≤ row.bucketStart) ∧
      acc.last = row.agg.last ∧ acc.lastAt = some row.bucketStart

theorem Latest.of_perm {rows rows' : List (Row V)} {acc : WindowAcc V} (h : Latest rows acc)
    (hperm : rows.Perm rows') : Latest rows' acc where
  n := h.n.trans (hperm.map _).sum_eq
  last := by
    rcases h.last with ⟨rfl, hlast⟩ | ⟨row, hrow, hlatest, hlast⟩
    · exact .inl ⟨hperm.nil_eq.symm, hlast⟩
    · exact .inr ⟨row, hperm.mem_iff.1 hrow, fun r hr => hlatest r (hperm.mem_iff.2 hr), hlast⟩

variable [Add V] [Min V] [Max V]

theorem Latest.absorb {rows : List (Row V)} {acc : WindowAcc V} (h : Latest rows acc) (row : Row V) :
    Latest (rows ++ [row]) (acc.absorb row.bucketStart row.agg) := by
  refine ⟨?_, .inr ?_⟩
  · simp [WindowAcc.absorb, h.n]
  · rcases h.last with ⟨rfl, -, hlastAt⟩ | ⟨row', hrow', hlatest, hlast, hlastAt⟩
    · exact ⟨row, by simp, by simp, by simp [WindowAcc.absorb, hlastAt],
        by simp [WindowAcc.absorb, hlastAt]⟩
    · by_cases hnewer : row'.bucketStart < row.bucketStart
      · refine ⟨row, by simp, fun r hr => ?_, by simp [WindowAcc.absorb, hlastAt, hnewer],
          by simp [WindowAcc.absorb, hlastAt, hnewer]⟩
        rcases List.mem_append.1 hr with hr | hr
        · exact (hlatest r hr).trans hnewer.le
        · rw [List.mem_singleton.1 hr]
      · refine ⟨row', by simp [hrow'], fun r hr => ?_,
          by simp [WindowAcc.absorb, hlastAt, hnewer, hlast],
          by simp [WindowAcc.absorb, hlastAt, hnewer]⟩
        rcases List.mem_append.1 hr with hr | hr
        · exact hlatest r hr
        · rw [List.mem_singleton.1 hr]
          exact not_lt.1 hnewer

/-- Absorb rows. -/
abbrev absorbAll (acc : WindowAcc V) (rows : List (Row V)) : WindowAcc V :=
  rows.foldl (fun (acc : WindowAcc V) row => acc.absorb row.bucketStart row.agg) acc

theorem latest_absorbAll (rows : List (Row V)) : Latest rows (absorbAll {} rows) := by
  induction rows using List.reverseRecOn with
  | nil => exact ⟨rfl, .inl ⟨rfl, rfl, rfl⟩⟩
  | append_singleton rows row ih =>
    rw [absorbAll, List.foldl_append]
    exact ih.absorb row

end

/-- The rows together. -/
structure Absorbed (rows : List Row) (acc : WindowAcc) : Prop extends Latest rows acc where
  /-- The sum of the samples. -/
  sum : acc.sum = (rows.map fun row => row.agg.sum).sum
  /-- The least of them. -/
  min : acc.min = (rows.map fun row => row.agg.min).min?
  /-- The greatest of them. -/
  max : acc.max = (rows.map fun row => row.agg.max).max?

theorem Absorbed.absorb {rows : List Row} {acc : WindowAcc} (h : Absorbed rows acc) (row : Row) :
    Absorbed (rows ++ [row]) (acc.absorb row.bucketStart row.agg) := by
  refine ⟨h.toLatest.absorb row, ?_, ?_, ?_⟩
  · simp [WindowAcc.absorb, h.sum]
  · rw [List.map_append, Bucket.min?_append, ← h.min, WindowAcc.absorb]
    cases acc.min <;> simp
  · rw [List.map_append, Bucket.max?_append, ← h.max, WindowAcc.absorb]
    cases acc.max <;> simp

theorem absorbed_absorbAll (rows : List Row) : Absorbed rows (absorbAll {} rows) := by
  induction rows using List.reverseRecOn with
  | nil => exact ⟨latest_absorbAll [], rfl, rfl, rfl⟩
  | append_singleton rows row ih =>
    rw [absorbAll, List.foldl_append]
    exact ih.absorb row

theorem Absorbed.of_perm {rows rows' : List Row} {acc : WindowAcc} (h : Absorbed rows acc)
    (hperm : rows.Perm rows') : Absorbed rows' acc where
  toLatest := h.toLatest.of_perm hperm
  sum := h.sum.trans (hperm.map _).sum_eq
  min := h.min.trans (Bucket.min?_eq_of_perm (hperm.map _))
  max := h.max.trans (Bucket.max?_eq_of_perm (hperm.map _))

/-! ### The rows of buckets -/

section

variable (f : Reading → ℤ) (rs : List Reading)

/-- The readings of a bucket as a row. -/
def bucketRow (b : ℤ) : Row := ⟨b, aggOf ((rs.filter (f · = b)).map Reading.value)⟩

variable {f rs} {keys : List ℤ}

theorem perm_values (hkeys : keys.Nodup) :
    (keys.map fun b => (rs.filter (f · = b)).map Reading.value).flatten.Perm
      ((rs.filter (f · ∈ keys)).map Reading.value) := by
  have h := (Bucket.perm_flatMap f rs hkeys).map Reading.value
  rwa [List.map_flatMap, List.flatMap_def] at h

theorem Absorbed.n_bucketRows {acc : WindowAcc} (h : Absorbed (keys.map (bucketRow f rs)) acc)
    (hkeys : keys.Nodup) : acc.n = (rs.filter (f · ∈ keys)).length := by
  have hlength := (@perm_values f rs _ hkeys).length_eq
  rw [List.length_map, List.length_flatten] at hlength
  rw [h.n, ← hlength, List.map_map, List.map_map, Nat.cast_list_sum, List.map_map]
  rfl

/-- **The rows of the buckets together are the aggregate of the readings**, if the last reading is
in the last bucket. -/
theorem Absorbed.agg_bucketRows {acc : WindowAcc} (h : Absorbed (keys.map (bucketRow f rs)) acc)
    (hkeys : keys.Nodup) (hmem : ∀ b ∈ keys, ∃ r ∈ rs, f r = b)
    (hlast : ∀ z ∈ rs.getLast?, (∀ r ∈ rs, f r ≤ f z) ∧ (keys ≠ [] → f z ∈ keys)) :
    (⟨acc.n, acc.sum, acc.min.getD 0, acc.max.getD 0, acc.last⟩ : SlotAgg) =
      aggOf ((rs.filter (f · ∈ keys)).map Reading.value) := by
  have hperm := @perm_values f rs _ hkeys
  have hne : ∀ vs ∈ keys.map fun b => (rs.filter (f · = b)).map Reading.value, vs ≠ [] := by
    intro vs hvs
    obtain ⟨b, hb, rfl⟩ := List.mem_map.1 hvs
    obtain ⟨r, hr, hrb⟩ := hmem b hb
    exact List.ne_nil_of_mem (List.mem_map_of_mem (List.mem_filter.2 ⟨hr, by simpa using hrb⟩))
  have hsum : acc.sum = ((rs.filter (f · ∈ keys)).map Reading.value).sum := by
    rw [h.sum, ← hperm.sum_eq, List.sum_flatten, List.map_map, List.map_map]
    rfl
  have hmin : acc.min = ((rs.filter (f · ∈ keys)).map Reading.value).min? := by
    rw [h.min, ← Bucket.min?_eq_of_perm hperm, ← Bucket.min?_flatten 0 hne, List.map_map,
      List.map_map]
    rfl
  have hmax : acc.max = ((rs.filter (f · ∈ keys)).map Reading.value).max? := by
    rw [h.max, ← Bucket.max?_eq_of_perm hperm, ← Bucket.max?_flatten 0 hne, List.map_map,
      List.map_map]
    rfl
  have hlast' : acc.last = ((rs.filter (f · ∈ keys)).map Reading.value).getLast?.getD 0 := by
    rcases h.last with ⟨hnil, hzero, -⟩ | ⟨row, hrow, hlatest, hacc, -⟩
    · obtain rfl := List.map_eq_nil_iff.1 hnil
      rw [hzero]
      simp
    · obtain ⟨b, hb, rfl⟩ := List.mem_map.1 hrow
      obtain ⟨r, hr, -⟩ := hmem b hb
      obtain ⟨z, hz⟩ := Option.isSome_iff_exists.1
        (List.getLast?_isSome.2 (List.ne_nil_of_mem hr))
      obtain ⟨hle, hin⟩ := hlast z hz
      have hzkeys := hin (List.ne_nil_of_mem hb)
      -- the latest bucket is that of the last reading
      have hbz : b = f z := by
        refine le_antisymm ?_ (hlatest _ (List.mem_map_of_mem hzkeys))
        obtain ⟨r', hr', rfl⟩ := hmem b hb
        exact hle r' hr'
      obtain ⟨rs', rfl⟩ := List.getLast?_eq_some_iff.1 hz
      rw [hacc, bucketRow, aggOf, hbz]
      simp [List.filter_append, hzkeys]
  rw [aggOf, ← hsum, ← hmin, ← hmax, ← hlast', h.n_bucketRows hkeys, List.length_map]

end

/-! ### The buckets of a query -/

/-- The start of the bucket that has a reading: in the last of the tiers if it is folded there, or
else in the open bucket of the finer tier that has it. -/
def bucketIn : List Tier → List Reading → Reading → ℤ
  | [], _, r => r.secs
  | [tier], _, r => r.bucket tier
  | tier :: ts, rs, r =>
    if openBucket tier rs = some (r.bucket tier) then r.bucket tier
    else bucketIn ts (closedOf tier rs) r

/-- The bucket is in the row of the last of the tiers, or is the open one of a finer tier. -/
def Shown : List Tier → List Reading → ℤ → Prop
  | [], _, _ => False
  | [tier], rs, b => Kept tier rs b
  | tier :: ts, rs, b => openBucket tier rs = some b ∨ Shown ts (closedOf tier rs) b

theorem floorToStep_le {step : ℤ} (h : 0 < step) (secs : ℤ) : floorToStep secs step ≤ secs :=
  Int.ediv_mul_le _ h.ne'

section

variable {tier : Tier} {ts : List Tier} {rs : List Reading} {r : Reading} {b o : ℤ}

/-- A coarser tier has the reading in a bucket that does not start later. -/
theorem bucket_le_bucket {coarse : Tier} (hpos : 0 < tier.stepSecs) (hcoarse : 0 < coarse.stepSecs)
    (hdvd : tier.stepSecs ∣ coarse.stepSecs) (r : Reading) : r.bucket coarse ≤ r.bucket tier := by
  rw [Reading.bucket, ← floorToStep_floorToStep hpos hdvd]
  exact floorToStep_le hcoarse _

theorem bucketIn_le (hn : Nested (tier :: ts)) (rs : List Reading) (r : Reading) :
    bucketIn (tier :: ts) rs r ≤ r.bucket tier := by
  have hpos := hn.pos tier List.mem_cons_self
  induction ts generalizing tier rs with
  | nil => exact le_rfl
  | cons next ts ih =>
    rw [bucketIn]
    split_ifs
    · exact le_rfl
    · have hnext := hn.pos next (List.mem_cons_of_mem _ List.mem_cons_self)
      exact (ih hn.tail _ hnext).trans (bucket_le_bucket hpos hnext
        ((List.pairwise_cons.1 hn.dvd).1 next List.mem_cons_self) r)
    · simp

theorem mem_closedOf : r ∈ closedOf tier rs ↔ r ∈ rs ∧ openBucket tier rs ≠ some (r.bucket tier) := by
  simp [closedOf]

theorem lt_openBucket (hrs : InOrder rs) (hpos : 0 < tier.stepSecs)
    (ho : openBucket tier rs = some o) (hr : r ∈ closedOf tier rs) : r.bucket tier < o := by
  obtain ⟨hr, hne⟩ := mem_closedOf.1 hr
  refine lt_of_le_of_ne (le_openBucket hrs hpos ho r hr) fun heq => hne ?_
  rw [ho, heq]

theorem bucketIn_of_open (h : openBucket tier rs = some (r.bucket tier)) :
    bucketIn (tier :: ts) rs r = r.bucket tier := by
  cases ts with
  | nil => rfl
  | cons next ts => rw [bucketIn, if_pos h]; simp

theorem bucketIn_of_closed {next : Tier} (h : r ∈ closedOf tier rs) :
    bucketIn (tier :: next :: ts) rs r = bucketIn (next :: ts) (closedOf tier rs) r := by
  rw [bucketIn, if_neg (mem_closedOf.1 h).2]
  simp

theorem Shown.exists_bucketIn (h : Shown ts rs b) : ∃ r ∈ rs, bucketIn ts rs r = b := by
  induction ts generalizing rs with
  | nil => exact h.elim
  | cons tier ts ih =>
    cases ts with
    | nil => exact h.1
    | cons next ts =>
      rcases h with h | h
      · obtain ⟨r, hr, rfl⟩ := openBucket_mem h
        exact ⟨r, hr, bucketIn_of_open h⟩
      · obtain ⟨r, hr, hb⟩ := ih h
        exact ⟨r, (mem_closedOf.1 hr).1, (bucketIn_of_closed hr).trans hb⟩

theorem bucketIn_lt {next : Tier} (hn : Nested (tier :: next :: ts)) (hrs : InOrder rs)
    (ho : openBucket tier rs = some o) (hr : r ∈ closedOf tier rs) :
    bucketIn (next :: ts) (closedOf tier rs) r < o := by
  have hpos := hn.pos tier List.mem_cons_self
  calc bucketIn (next :: ts) (closedOf tier rs) r
      ≤ r.bucket next := bucketIn_le hn.tail _ r
    _ ≤ r.bucket tier := bucket_le_bucket hpos
        (hn.pos next (List.mem_cons_of_mem _ List.mem_cons_self))
        ((List.pairwise_cons.1 hn.dvd).1 next List.mem_cons_self) r
    _ < o := lt_openBucket hrs hpos ho hr

/-! ### The rows of a query -/

variable {ring : Ring} {rings : List Ring} {cutoff : ℤ}

theorem live_eq (h : ring.Holds tier rs) (cutoff : ℤ) : ∃ keys : List ℤ, keys.Nodup ∧
    ring.live cutoff = keys.map (bucketRow (bucketIn [tier] rs) rs) ∧
    ∀ b, b ∈ keys ↔ cutoff ≤ b ∧ Shown [tier] rs b := by
  have hrow : ∀ row ∈ ring.rows.entries.map Sigma.snd,
      Kept tier rs row.bucketStart ∧ row = bucketRow (bucketIn [tier] rs) rs row.bucketStart := by
    intro row hrow
    obtain ⟨e, he, rfl⟩ := List.mem_map.1 hrow
    obtain ⟨-, hkept, hagg⟩ := (h.row e.1 e.2).1 (AList.mem_lookup_iff.2 he)
    exact ⟨hkept, congrArg (Row.mk _) hagg⟩
  refine ⟨(ring.live cutoff).map Row.bucketStart, ?_, ?_, fun b => ?_⟩
  · -- two rows of one start are in one slot
    have hnodup : ((ring.rows.entries.map Sigma.snd).map Row.bucketStart).Nodup := by
      rw [List.map_map]
      refine (List.nodup_map_iff_inj_on ring.rows.nodupKeys.nodup).2 fun e he e' he' heq => ?_
      refine ring.rows.nodupKeys.eq_of_fst_eq he he' ?_
      dsimp only [Function.comp_apply] at heq
      rw [((h.row e.1 e.2).1 (AList.mem_lookup_iff.2 he)).1,
        ((h.row e'.1 e'.2).1 (AList.mem_lookup_iff.2 he')).1, heq]
    exact hnodup.sublist (List.filter_sublist.map _)
  · rw [List.map_map]
    conv_lhs => rw [← List.map_id (ring.live cutoff)]
    exact List.map_congr_left fun row hr => (hrow row (List.mem_of_mem_filter hr)).2
  · rw [List.mem_map]
    constructor
    · rintro ⟨row, hr, rfl⟩
      obtain ⟨hr, hcutoff⟩ := List.mem_filter.1 hr
      exact ⟨by simpa using hcutoff, (hrow row hr).1⟩
    · rintro ⟨hcutoff, hkept⟩
      have hlookup := (h.row _ ⟨b, aggOf (valuesIn tier rs b)⟩).2 ⟨rfl, hkept, rfl⟩
      refine ⟨_, List.mem_filter.2 ⟨List.mem_map_of_mem (AList.mem_lookup_iff.1 hlookup), ?_⟩, rfl⟩
      simpa using hcutoff

theorem liveOpen_eq (h : ring.Holds tier rs) (hrs : InOrder rs) (hpos : 0 < tier.stepSecs)
    (cutoff : ℤ) : ring.liveOpen cutoff =
      ((openBucket tier rs).filter (cutoff ≤ ·)).map fun b => ⟨b, aggOf (valuesIn tier rs b)⟩ := by
  rw [Ring.liveOpen, h.cursor]
  cases ho : openBucket tier rs with
  | none => rfl
  | some o =>
    have hlookup := h.lookup_open hrs hpos ho
    by_cases hcutoff : cutoff ≤ o
    · simp [hcutoff, hlookup, Option.filter]
    · simp [hcutoff, Option.filter]

theorem bucketRow_of_open {next : Tier} (hn : Nested (tier :: next :: ts)) (hrs : InOrder rs)
    (ho : openBucket tier rs = some o) :
    bucketRow (bucketIn (tier :: next :: ts) rs) rs o = ⟨o, aggOf (valuesIn tier rs o)⟩ := by
  rw [bucketRow, valuesIn]
  refine congrArg (fun l : List Reading => Row.mk o (aggOf (l.map Reading.value)))
    (List.filter_congr fun r hr => ?_)
  by_cases hopen : openBucket tier rs = some (r.bucket tier)
  · rw [bucketIn_of_open hopen]
  · have hr' : r ∈ closedOf tier rs := mem_closedOf.2 ⟨hr, hopen⟩
    have hin := bucketIn_lt hn hrs ho hr'
    have hlt := lt_openBucket hrs (hn.pos tier List.mem_cons_self) ho hr'
    simp [bucketIn_of_closed hr', hin.ne, hlt.ne]

theorem bucketRow_of_closed {next : Tier} (hb : openBucket tier rs ≠ some b) :
    bucketRow (bucketIn (tier :: next :: ts) rs) rs b =
      bucketRow (bucketIn (next :: ts) (closedOf tier rs)) (closedOf tier rs) b := by
  rw [bucketRow, bucketRow]
  refine congrArg (fun l : List Reading => Row.mk b (aggOf (l.map Reading.value))) ?_
  have hfilter : ∀ q : Reading → Bool, (closedOf tier rs).filter q =
      rs.filter fun r => q r && decide (openBucket tier rs ≠ some (r.bucket tier)) :=
    fun q => List.filter_filter
  rw [hfilter]
  refine List.filter_congr fun r hr => ?_
  by_cases hopen : openBucket tier rs = some (r.bucket tier)
  · have hne : r.bucket tier ≠ b := fun heq => hb (by rw [hopen, heq])
    simp [bucketIn_of_open hopen, hne, hopen]
  · rw [bucketIn_of_closed (mem_closedOf.2 ⟨hr, hopen⟩)]
    simp [hopen]

theorem Nested.take (h : Nested ts) (n : ℕ) : Nested (ts.take n) :=
  ⟨fun t ht => h.pos t (List.mem_of_mem_take ht), h.dvd.sublist (List.take_sublist n ts)⟩

/-- **A query absorbs the shown buckets from the cutoff on, each once.** -/
theorem liveRows_perm (hn : Nested ts) (h : Holds ts rs rings) (hrs : InOrder rs) {picked : ℕ}
    (hpicked : picked < ts.length) (cutoff : ℤ) : ∃ keys : List ℤ, keys.Nodup ∧
      (liveRows picked rings cutoff).Perm
        (keys.map (bucketRow (bucketIn (ts.take (picked + 1)) rs) rs)) ∧
      ∀ b, b ∈ keys ↔ cutoff ≤ b ∧ Shown (ts.take (picked + 1)) rs b := by
  induction picked generalizing ts rs rings with
  | zero =>
    cases ts with
    | nil => exact absurd hpicked (Nat.not_lt_zero _)
    | cons tier ts =>
      cases rings with
      | nil => exact h.elim
      | cons ring rings =>
        obtain ⟨keys, hnodup, hrows, hmem⟩ := live_eq h.1 cutoff
        refine ⟨keys, hnodup, List.Perm.of_eq ?_, hmem⟩
        rw [liveRows, List.take_zero, List.filterMap_nil, List.append_nil]
        exact hrows
  | succ picked ih =>
    cases ts with
    | nil => exact absurd hpicked (Nat.not_lt_zero _)
    | cons tier ts =>
      cases ts with
      | nil => simp at hpicked
      | cons next ts =>
        cases rings with
        | nil => exact h.elim
        | cons ring rings =>
          have hpos := hn.pos tier List.mem_cons_self
          have hpicked' : picked < (next :: ts).length := by simpa using hpicked
          obtain ⟨keys, hnodup, hrows, hmem⟩ :=
            ih hn.tail h.2 (hrs.sublist List.filter_sublist) hpicked'
          have hn' : Nested (tier :: next :: ts.take picked) := hn.take (picked + 2)
          rw [List.take_succ_cons] at hrows hmem
          rw [List.take_succ_cons, List.take_succ_cons]
          let opened := ((openBucket tier rs).filter (cutoff ≤ ·)).toList
          have hopened : ∀ b, b ∈ opened ↔ cutoff ≤ b ∧ openBucket tier rs = some b := by
            intro b
            simp only [opened, Option.mem_toList, Option.filter_eq_some_iff,
              decide_eq_true_eq]
            exact and_comm
          -- the buckets of the coarser tiers are before the open one
          have hne : ∀ b ∈ keys, openBucket tier rs ≠ some b := by
            intro b hb ho
            obtain ⟨r, hr, hrb⟩ := ((hmem b).1 hb).2.exists_bucketIn
            exact (bucketIn_lt hn' hrs ho hr).ne hrb
          refine ⟨opened ++ keys, ?_, ?_, fun b => ?_⟩
          · refine List.nodup_append'.2 ⟨?_, hnodup, fun b hb hb' => hne b hb' ((hopened b).1 hb).2⟩
            exact (Option.toList_nodup _)
          · have hlive : ((ring :: rings).take (picked + 1)).filterMap (Ring.liveOpen · cutoff) =
                opened.map (bucketRow (bucketIn (tier :: next :: ts.take picked) rs) rs) ++
                  (rings.take picked).filterMap (Ring.liveOpen · cutoff) := by
              rw [List.take_succ_cons, List.filterMap_cons, liveOpen_eq h.1 hrs hpos]
              cases ho : openBucket tier rs with
              | none => simp [opened, ho]
              | some o =>
                by_cases hcutoff : cutoff ≤ o
                · simp [opened, ho, hcutoff, Option.filter, bucketRow_of_open hn' hrs ho]
                · simp [opened, ho, hcutoff, Option.filter]
            have hclosed : keys.map (bucketRow (bucketIn (tier :: next :: ts.take picked) rs) rs) =
                keys.map (bucketRow (bucketIn (next :: ts.take picked) (closedOf tier rs))
                  (closedOf tier rs)) :=
              List.map_congr_left fun b hb => bucketRow_of_closed (hne b hb)
            rw [liveRows, hlive, List.map_append, hclosed]
            exact (List.perm_append_comm_assoc _ _ _).trans (hrows.append_left _)
          · rw [List.mem_append, hopened, hmem, ← and_or_left]
            exact Iff.rfl

/-- **What a query returns is exact when every bucket from the cutoff on is shown.** -/
theorem absorbed_exact_iff (hn : Nested (tier :: ts)) (h : Holds (tier :: ts) rs rings)
    (hrs : InOrder rs) {picked : ℕ} (hpicked : picked < (tier :: ts).length) (cutoff : ℤ) :
    let acc := absorbAll {} (liveRows picked rings cutoff)
    let f := bucketIn ((tier :: ts).take (picked + 1)) rs
    (⟨acc.n, acc.sum, acc.min.getD 0, acc.max.getD 0, acc.last⟩ : SlotAgg) =
        aggOf ((rs.filter (cutoff ≤ f ·)).map Reading.value) ↔
      ∀ r ∈ rs, cutoff ≤ f r → Shown ((tier :: ts).take (picked + 1)) rs (f r) := by
  intro acc f
  obtain ⟨keys, hnodup, hrows, hmem⟩ := liveRows_perm hn h hrs hpicked cutoff
  have habsorbed : Absorbed (keys.map (bucketRow f rs)) acc :=
    (absorbed_absorbAll _).of_perm hrows
  have hkeys : rs.filter (f · ∈ keys) = (rs.filter (cutoff ≤ f ·)).filter (f · ∈ keys) := by
    rw [List.filter_filter]
    refine List.filter_congr fun r _ => ?_
    by_cases hr : f r ∈ keys
    · simp [hr, ((hmem _).1 hr).1]
    · simp [hr]
  constructor
  · intro heq r hr hcutoff
    by_contra hshown
    -- the readings of the bucket are not counted
    have hnot : f r ∉ keys := fun hk => hshown ((hmem _).1 hk).2
    have hlt : (rs.filter (f · ∈ keys)).length < (rs.filter (cutoff ≤ f ·)).length := by
      rw [hkeys]
      refine List.length_filter_lt_length_iff_exists.2 ⟨r, ?_, by simpa using hnot⟩
      exact List.mem_filter.2 ⟨hr, by simpa using hcutoff⟩
    have hcount := congrArg SlotAgg.n heq
    dsimp only [aggOf] at hcount
    rw [habsorbed.n_bucketRows hnodup, List.length_map] at hcount
    omega
  · intro hall
    have hfilter : rs.filter (f · ∈ keys) = rs.filter (cutoff ≤ f ·) := by
      rw [hkeys, List.filter_eq_self]
      intro r hr
      obtain ⟨hr, hcutoff⟩ := List.mem_filter.1 hr
      have hcutoff' : cutoff ≤ f r := by simpa using hcutoff
      simpa using (hmem _).2 ⟨hcutoff', hall r hr hcutoff'⟩
    rw [← hfilter]
    refine habsorbed.agg_bucketRows hnodup (fun b hb => ((hmem b).1 hb).2.exists_bucketIn) ?_
    intro z hz
    have hpos := hn.pos tier List.mem_cons_self
    have hopen : openBucket tier rs = some (z.bucket tier) := congrArg _ hz
    have hfz : f z = z.bucket tier := bucketIn_of_open hopen
    have hle : ∀ r ∈ rs, f r ≤ f z := by
      intro r hr
      rw [hfz]
      exact (bucketIn_le (hn.take (picked + 1)) rs r).trans (le_openBucket hrs hpos hopen r hr)
    refine ⟨hle, fun hne => ?_⟩
    obtain ⟨b, hb⟩ := List.exists_mem_of_ne_nil keys hne
    obtain ⟨r, hr, rfl⟩ := ((hmem b).1 hb).2.exists_bucketIn
    have hcutoff := ((hmem _).1 hb).1.trans (hle r hr)
    exact (hmem _).2 ⟨hcutoff, hall z (List.mem_of_getLast? hz) hcutoff⟩

/-! ### Laps -/

theorem add_span_le (hpos : 0 < tier.stepSecs) (hslots : 0 < tier.slots) {r r' : Reading}
    (hslot : slotFor (r'.bucket tier) tier.stepSecs tier.slots =
      slotFor (r.bucket tier) tier.stepSecs tier.slots)
    (hlt : r.bucket tier < r'.bucket tier) :
    r.bucket tier + tier.stepSecs * tier.slots ≤ r'.bucket tier := by
  rw [slotFor, slotFor, Reading.bucket, Reading.bucket, floorToStep_ediv hpos,
    floorToStep_ediv hpos] at hslot
  rw [Reading.bucket, Reading.bucket, floorToStep, floorToStep] at hlt ⊢
  have hlt' : r.secs / tier.stepSecs < r'.secs / tier.stepSecs := lt_of_mul_lt_mul_right hlt hpos.le
  obtain ⟨k, hk⟩ := Int.dvd_of_emod_eq_zero (Int.emod_eq_emod_iff_emod_sub_eq_zero.1 hslot)
  have hkpos : 0 < k := by
    by_contra hneg
    have hle : tier.slots * k ≤ 0 := mul_nonpos_of_nonneg_of_nonpos hslots.le (not_lt.1 hneg)
    omega
  have hslots' : tier.slots ≤ tier.slots * k := le_mul_of_one_le_right hslots.le hkpos
  calc r.secs / tier.stepSecs * tier.stepSecs + tier.stepSecs * tier.slots
      = (r.secs / tier.stepSecs + tier.slots) * tier.stepSecs := by
        rw [add_mul, mul_comm tier.slots]
    _ ≤ r'.secs / tier.stepSecs * tier.stepSecs :=
        Int.mul_le_mul_of_nonneg_right (by omega) hpos.le

/-- A bucket of the last lap is kept, unless it is exactly a lap ago. -/
theorem kept_or_lapped (hpos : 0 < tier.stepSecs) (hslots : 0 < tier.slots) {now : ℤ}
    (hnow : ∀ r' ∈ rs, r'.bucket tier ≤ now) (hr : r ∈ rs)
    (hspan : now - tier.stepSecs * tier.slots ≤ r.bucket tier) : Kept tier rs (r.bucket tier) ∨
      r.bucket tier = now - tier.stepSecs * tier.slots ∧ ∃ r' ∈ rs, r'.bucket tier = now := by
  by_cases hkept : Kept tier rs (r.bucket tier)
  · exact .inl hkept
  · right
    unfold Kept at hkept
    push Not at hkept
    obtain ⟨r', hr', hslot, hlt⟩ := hkept ⟨r, hr, rfl⟩
    have hlap := add_span_le hpos hslots hslot hlt
    have hle := hnow r' hr'
    exact ⟨by omega, r', hr', by omega⟩

theorem shown_of_lt (hn : Nested (tier :: ts)) (hslots : ∀ t ∈ tier :: ts, 0 < t.slots)
    (hrs : InOrder rs) {now cutoff : ℤ} (hnow : ∀ r' ∈ rs, r'.bucket tier < now)
    (hspan : ∀ last ∈ (tier :: ts).getLast?, now - cutoff ≤ last.stepSecs * last.slots)
    (hr : r ∈ rs) (hcutoff : cutoff ≤ bucketIn (tier :: ts) rs r) :
    Shown (tier :: ts) rs (bucketIn (tier :: ts) rs r) := by
  have hpos := hn.pos tier List.mem_cons_self
  induction ts generalizing tier rs with
  | nil =>
    have hspan' : now - cutoff ≤ tier.stepSecs * tier.slots := hspan tier rfl
    change cutoff ≤ r.bucket tier at hcutoff
    rcases kept_or_lapped hpos (hslots tier List.mem_cons_self) (fun r' hr' => (hnow r' hr').le) hr
      (by omega) with hkept | ⟨-, r', hr', heq⟩
    · exact hkept
    · exact absurd heq (hnow r' hr').ne
  | cons next ts ih =>
    by_cases hopen : openBucket tier rs = some (r.bucket tier)
    · rw [bucketIn_of_open hopen]
      exact .inl hopen
    · have hr' : r ∈ closedOf tier rs := mem_closedOf.2 ⟨hr, hopen⟩
      have hnext := hn.pos next (List.mem_cons_of_mem _ List.mem_cons_self)
      have hdvd := (List.pairwise_cons.1 hn.dvd).1 next List.mem_cons_self
      rw [bucketIn_of_closed hr'] at hcutoff ⊢
      refine .inr (ih hn.tail (fun t ht => hslots t (List.mem_cons_of_mem _ ht))
        (hrs.sublist List.filter_sublist) (fun r' hr' => ?_) hspan hr' hcutoff hnext)
      exact (bucket_le_bucket hpos hnext hdvd r').trans_lt (hnow r' (mem_closedOf.1 hr').1)

/-- The ring of the tier has just lapped the first bucket of the window. -/
def Lapped (tier : Tier) (rs : List Reading) (window : ℕ) (now : ℤ) : Prop :=
  (window : ℤ) = tier.stepSecs * tier.slots ∧ (∃ r ∈ rs, r.bucket tier = now) ∧
    ∃ r ∈ rs, r.bucket tier = now - window

/-- **Every bucket of the window is shown, unless the finest ring has just lapped the first.** -/
theorem shown_iff (hn : Nested (tier :: ts)) (hslots : ∀ t ∈ tier :: ts, 0 < t.slots)
    (hrs : InOrder rs) {now : ℤ} {window : ℕ} (hnow : ∀ r' ∈ rs, r'.bucket tier ≤ now)
    (hspan : ∀ last ∈ (tier :: ts).getLast?, (window : ℤ) ≤ last.stepSecs * last.slots)
    (hfinest : (window : ℤ) ≤ tier.stepSecs * tier.slots → ts = []) :
    (∀ r ∈ rs, now - window ≤ bucketIn (tier :: ts) rs r →
        Shown (tier :: ts) rs (bucketIn (tier :: ts) rs r)) ↔ ¬ Lapped tier rs window now := by
  have hpos := hn.pos tier List.mem_cons_self
  have hslot := hslots tier List.mem_cons_self
  constructor
  · rintro hall ⟨hwindow, ⟨r', hr', hnow'⟩, r, hr, hfirst⟩
    obtain rfl := hfinest hwindow.le
    have hkept : Kept tier rs (r.bucket tier) := hall r hr hfirst.ge
    have hspan' : 0 < tier.stepSecs * tier.slots := mul_pos hpos hslot
    -- the slot of the first bucket has the last one
    have heq : slotFor (r'.bucket tier) tier.stepSecs tier.slots =
        slotFor (r.bucket tier) tier.stepSecs tier.slots := by
      have hr'' : r'.bucket tier = r.bucket tier + tier.stepSecs * tier.slots := by omega
      rw [slotFor, slotFor, hr'', Int.add_mul_ediv_left _ _ hpos.ne', Int.add_emod_right]
    have hle := hkept.2 r' hr' heq
    omega
  · intro hnot r hr hcutoff
    cases ts with
    | nil =>
      change now - window ≤ r.bucket tier at hcutoff
      have hspan' : (window : ℤ) ≤ tier.stepSecs * tier.slots := hspan tier rfl
      rcases kept_or_lapped hpos hslot hnow hr (by omega) with hkept | ⟨hfirst, hlast⟩
      · exact hkept
      · have hwindow : (window : ℤ) = tier.stepSecs * tier.slots := by omega
        exact absurd ⟨hwindow, hlast, r, hr, by omega⟩ hnot
    | cons next ts =>
      by_cases hopen : openBucket tier rs = some (r.bucket tier)
      · rw [bucketIn_of_open hopen]
        exact .inl hopen
      · have hr' : r ∈ closedOf tier rs := mem_closedOf.2 ⟨hr, hopen⟩
        have hnext := hn.pos next (List.mem_cons_of_mem _ List.mem_cons_self)
        have hdvd := (List.pairwise_cons.1 hn.dvd).1 next List.mem_cons_self
        obtain ⟨o, ho⟩ := Option.isSome_iff_exists.1
          (show (openBucket tier rs).isSome = true by
            rw [openBucket, Option.isSome_map]
            exact List.getLast?_isSome.2 (List.ne_nil_of_mem hr))
        obtain ⟨z, hz, rfl⟩ := openBucket_mem ho
        -- what is closed is before the open bucket
        have hlt : ∀ r' ∈ closedOf tier rs, r'.bucket next < now := fun r' hr' =>
          ((bucket_le_bucket hpos hnext hdvd r').trans_lt
            (lt_openBucket hrs hpos ho hr')).trans_le (hnow z hz)
        rw [bucketIn_of_closed hr'] at hcutoff ⊢
        refine .inr (shown_of_lt hn.tail (fun t ht => hslots t (List.mem_cons_of_mem _ ht))
          (hrs.sublist List.filter_sublist) hlt (fun last hlast => ?_) hr' hcutoff)
        have hle := hspan last hlast
        omega

end

/-! ### Queries -/

theorem recorded_sublist (ts : List Tier) (store : Store) (ss : List Sample) :
    (recorded ts store ss).Sublist ss := by
  induction ss generalizing store with
  | nil => exact List.Sublist.refl _
  | cons s ss ih =>
    rw [recorded]
    cases record ts store s with
    | none => exact List.nil_sublist _
    | some r =>
      cases r with
      | error e => exact (ih store).cons s
      | ok store => exact (ih store).cons_cons s

theorem nanos_of_mem_recorded {ts : List Tier} {store : Store} {ss : List Sample} {s : Sample}
    (h : s ∈ recorded ts store ss) : 0 ≤ s.nanos := by
  induction ss generalizing store with
  | nil => exact absurd h List.not_mem_nil
  | cons s' ss ih =>
    rw [recorded] at h
    cases hr : record ts store s' with
    | none =>
      rw [hr] at h
      exact absurd h List.not_mem_nil
    | some r =>
      rw [hr] at h
      cases r with
      | error e => exact ih h
      | ok store' =>
        rcases List.mem_cons.1 h with rfl | h
        · by_contra hneg
          rw [record, if_pos (not_le.1 hneg)] at hr
          cases hr
        · exact ih h

/-- The finest tier. -/
def rawTier : Tier := ⟨"raw".toList, 60, 360⟩

theorem asI64_eq {n : ℕ} (h : n < 2 ^ 63) : asI64 n = n := by
  have hn : (n : ℤ) < 9223372036854775808 := by exact_mod_cast h
  unfold asI64
  refine Int.bmod_eq_of_le ?_ ?_
  · have hlow : -(((2 ^ 64 : ℕ) : ℤ) / 2) = -9223372036854775808 := by norm_num
    rw [hlow]
    omega
  · have hhigh : (((2 ^ 64 : ℕ) : ℤ) + 1) / 2 = 9223372036854775808 := by norm_num
    rw [hhigh]
    exact hn

theorem pickTierIdx_lt {ts : List Tier} (h : ts ≠ []) (windowSecs : ℤ) :
    pickTierIdx ts windowSecs < ts.length := by
  have hpos := List.length_pos_iff.2 h
  unfold pickTierIdx
  cases hfind : ts.findIdx? fun t => windowSecs ≤ t.stepSecs * t.slots with
  | none => exact Nat.sub_lt hpos Nat.one_pos
  | some i =>
    obtain ⟨hi, -⟩ := List.findIdx?_eq_some_iff_getElem.1 hfind
    exact hi

/-- The finest tier is picked when its span covers the window. -/
theorem pickTierIdx_eq_zero {tier : Tier} (ts : List Tier) {windowSecs : ℤ}
    (h : windowSecs ≤ tier.stepSecs * tier.slots) : pickTierIdx (tier :: ts) windowSecs = 0 := by
  simp [pickTierIdx, List.findIdx?_cons, h]

/-- The aggregate of a summary. -/
def MetricSummary.agg (m : MetricSummary) : SlotAgg := ⟨m.n, m.sum, m.min, m.max, m.last⟩

/-- The readings whose bucket is not before the start of the window. -/
def inWindow (ts : List Tier) (rs : List Reading) (window : ℕ) (nanos : ℤ) : List Reading :=
  rs.filter fun r => nanos / 1000000000 - window ≤
    bucketIn (ts.take (pickTierIdx ts (asI64 window) + 1)) rs r

/-- After the samples, a query returns what is recorded of the metric in the window. -/
def QueryExact (ts : List Tier) (ss : List Sample) (name : Str) (window : ℕ) (nanos : ℤ) : Prop :=
  ∃ store m, recordAll ts ∅ ss = some store ∧ queryWindow ts store name window nanos = .ok m ∧
    m.agg = aggOf ((inWindow ts (readings name (recorded ts ∅ ss)) window nanos).map Reading.value)

/-- The window is not longer than the span of the tier that is picked for it. -/
def WithinSpan (ts : List Tier) (window : ℕ) : Prop :=
  ∀ tier ∈ ts[pickTierIdx ts (asI64 window)]?, (window : ℤ) ≤ tier.stepSecs * tier.slots

section

variable {tier : Tier} {ts : List Tier}

theorem queryWindow_exact_of_holds (hn : Nested (tier :: ts)) (hslots : ∀ t ∈ tier :: ts, 0 < t.slots)
    {store : Store} {name : Str} {rs : List Reading} {window : ℕ} {nanos : ℤ}
    (h : Holds (tier :: ts) rs (store.rings (tier :: ts) name))
    (hknown : (store.lookup name).isSome = true → rs ≠ []) (hrs : InOrder rs)
    (hpast : ∀ r ∈ rs, r.bucket tier ≤ nanos / 1000000000) (hnow : rs ≠ [] → 0 ≤ nanos)
    (hasI64 : asI64 window = window) (hwindow : WithinSpan (tier :: ts) window) :
    (∃ m, queryWindow (tier :: ts) store name window nanos = .ok m ∧
        m.agg = aggOf ((inWindow (tier :: ts) rs window nanos).map Reading.value)) ↔
      ¬ Lapped tier rs window (nanos / 1000000000) := by
  unfold queryWindow
  cases hlookup : store.lookup name with
  | none =>
    -- the metric has no readings
    have hempty : Holds (tier :: ts) rs ((tier :: ts).map fun _ => {}) := by
      rw [Store.rings, hlookup] at h
      exact h
    have hnil : rs = [] := by simpa [openBucket] using hempty.1.cursor
    subst hnil
    refine ⟨fun _ hlapped => ?_, fun _ => ⟨_, rfl, rfl⟩⟩
    obtain ⟨-, ⟨r, hr, -⟩, -⟩ := hlapped
    cases hr
  | some metric =>
    have hneg : ¬ nanos < 0 := not_lt.2 (hnow (hknown (by rw [hlookup]; rfl)))
    have hmetric : store.rings (tier :: ts) name = metric.rings := by rw [Store.rings, hlookup]
    have hpicked := pickTierIdx_lt (List.cons_ne_nil tier ts) window
    have hexact := absorbed_exact_iff hn h hrs hpicked (nanos / 1000000000 - window)
    have hshown := shown_iff (hn.take (pickTierIdx (tier :: ts) window + 1))
      (fun t ht => hslots t (List.take_subset (_ + 1) _ ht)) hrs hpast (fun last hlast => ?_)
      (fun hle => by rw [pickTierIdx_eq_zero ts hle, List.take_zero])
    · rw [← hshown]
      rw [hmetric] at hexact
      dsimp only at hexact ⊢
      have hsecs : 0 ≤ nanos / 1000000000 := Int.ediv_nonneg (not_lt.1 hneg) (by decide)
      rw [if_neg hneg, hasI64, cutoffOf_eq hsecs (Int.natCast_nonneg window), inWindow, hasI64,
        ← List.take_succ_cons, ← hexact]
      constructor
      · rintro ⟨m, hm, hagg⟩
        obtain rfl := Except.ok.inj hm
        exact hagg
      · exact fun hagg => ⟨_, rfl, hagg⟩
    · rw [WithinSpan, hasI64] at hwindow
      refine hwindow last ?_
      rw [← List.take_succ_cons, List.getLast?_take, if_neg (Nat.succ_ne_zero _)] at hlast
      rw [Nat.add_sub_cancel, List.getElem?_eq_getElem hpicked, Option.some_or] at hlast
      rwa [List.getElem?_eq_getElem hpicked]

/-- After samples in the order of time, queries for windows within the span are exact unless the
finest ring has just lapped. -/
theorem queryExact_iff (hn : Nested (tier :: ts)) (hslots : ∀ t ∈ tier :: ts, 0 < t.slots)
    {ss : List Sample} (hss : ss.Pairwise fun s s' => s.nanos ≤ s'.nanos) (name : Str) {window : ℕ}
    {nanos : ℤ} (hnow : ∀ s ∈ ss, s.nanos ≤ nanos) (hasI64 : asI64 window = window)
    (hwindow : WithinSpan (tier :: ts) window) : QueryExact (tier :: ts) ss name window nanos ↔
      ¬ Lapped tier (readings name (recorded (tier :: ts) ∅ ss)) window (nanos / 1000000000) := by
  have hempty : Store.Sound (fun _ _ => True) (tier :: ts) (∅ : Store) :=
    fun name => consistent_empty _ (tier :: ts)
  obtain ⟨store, hrun, -⟩ := recordAll_sound hn hempty ss fun _ _ => trivial
  have hholds := recordAll_holds hn hss hrun
  have hsub := recorded_sublist (tier :: ts) ∅ ss
  have horder : InOrder (readings name (recorded (tier :: ts) ∅ ss)) := by
    rw [readings, InOrder, List.pairwise_map]
    exact (hss.sublist (List.filter_sublist.trans hsub)).imp
      fun hle => Int.ediv_le_ediv (by decide) hle
  have hpast : ∀ r ∈ readings name (recorded (tier :: ts) ∅ ss),
      r.bucket tier ≤ nanos / 1000000000 := by
    intro r hr
    obtain ⟨s, hs, rfl⟩ := List.mem_map.1 hr
    have hle := hnow s (hsub.subset (List.mem_of_mem_filter hs))
    exact (floorToStep_le (hn.pos tier List.mem_cons_self) _).trans
      (Int.ediv_le_ediv (by decide) hle)
  -- a reading was recorded, so that the time of the query is not before the epoch
  have hnonneg : readings name (recorded (tier :: ts) ∅ ss) ≠ [] → 0 ≤ nanos := by
    intro hne
    obtain ⟨r, hr⟩ := List.exists_mem_of_ne_nil _ hne
    obtain ⟨s, hs, rfl⟩ := List.mem_map.1 hr
    have hs' := List.mem_of_mem_filter hs
    exact (nanos_of_mem_recorded hs').trans (hnow s (hsub.subset hs'))
  rw [← queryWindow_exact_of_holds hn hslots (hholds.rings name) (hholds.known name) horder hpast
    hnonneg hasI64 hwindow]
  constructor
  · rintro ⟨store', m, hrun', hm⟩
    obtain rfl := Option.some.inj (hrun.symm.trans hrun')
    exact ⟨m, hm⟩
  · rintro ⟨m, hm⟩
    exact ⟨store, m, hrun, hm⟩

end

theorem WithinSpan.asI64_eq {window : ℕ} (h : WithinSpan tiers window) : asI64 window = window := by
  refine Usage.asI64_eq ?_
  have hspan : ∀ tier ∈ tiers, tier.stepSecs * tier.slots ≤ 31536000 := by decide
  have hpicked := pickTierIdx_lt (show tiers ≠ [] by decide) (asI64 window)
  have hle := h _ (List.getElem?_eq_getElem hpicked)
  have hmax := hspan _ (List.getElem_mem hpicked)
  omega

/-- **After samples in the order of time, a query for a window that is not longer than the span of
its tier is exact, unless the window is as long as the finest ring and the ring has just lapped the
first bucket.** -/
theorem queryWindow_exact_iff {ss : List Sample}
    (hss : ss.Pairwise fun s s' => s.nanos ≤ s'.nanos) (name : Str) {window : ℕ} {nanos : ℤ}
    (hnow : ∀ s ∈ ss, s.nanos ≤ nanos) (hwindow : WithinSpan tiers window) :
    QueryExact tiers ss name window nanos ↔ ¬ Lapped rawTier
      (readings name (recorded tiers ∅ ss)) window (nanos / 1000000000) :=
  queryExact_iff nested_tiers (by decide) hss name hnow hwindow.asI64_eq hwindow

/-- A minute, a quarter of an hour and some hours: a query of the last day reads two tiers. -/
def spread : List Sample :=
  [0, 50, 930, 20000].map fun secs => ⟨"events".toList, .counter, 1, secs * 1000000000⟩

theorem queryWindow_exact_spread : QueryExact tiers spread "events".toList 86400 21600000000000 := by
  have hwindow : WithinSpan tiers 86400 := by
    intro tier htier
    have hpicked : tiers[pickTierIdx tiers (asI64 86400)]? =
        some ⟨"agg_15m".toList, 900, 1344⟩ := by decide +kernel
    obtain rfl := Option.some.inj (hpicked.symm.trans htier)
    decide
  exact (queryWindow_exact_iff (by decide) _ (by decide) hwindow).2
    fun hlapped => absurd hlapped.1 (by decide)

/-- Every query after samples in the order of time is exact. -/
def QueriesExact : Prop :=
  ∀ ss : List Sample, ss.Pairwise (fun s s' => s.nanos ≤ s'.nanos) → ∀ name window nanos,
    (∀ s ∈ ss, s.nanos ≤ nanos) → WithinSpan tiers window → QueryExact tiers ss name window nanos

/-- A sample, and another six hours later. -/
def sixHours : List Sample :=
  [0, 21600].map fun secs => ⟨"events".toList, .counter, 1, secs * 1000000000⟩

/-- The second sample takes the slot of the first, whose minute is the first of the last six hours. -/
theorem not_queriesExact : ¬ QueriesExact := by
  intro h
  have hwindow : WithinSpan tiers 21600 := by
    intro tier htier
    have hpicked : tiers[pickTierIdx tiers (asI64 21600)]? = some rawTier := by decide +kernel
    obtain rfl := Option.some.inj (hpicked.symm.trans htier)
    decide
  obtain ⟨store, m, hrun, hquery, hagg⟩ :=
    h sixHours (by decide) "events".toList 21600 21600000000000 (by decide) hwindow
  have hone : (recordAll tiers ∅ sixHours).map (fun store =>
      (queryWindow tiers store "events".toList 21600 21600000000000).toOption.map
        MetricSummary.n) = some (some 1) := by decide +kernel
  have htwo : (inWindow tiers (readings "events".toList (recorded tiers ∅ sixHours)) 21600
      21600000000000).length = 2 := by decide +kernel
  rw [hrun, Option.map_some, hquery] at hone
  have hn : m.n = 1 := Option.some.inj (Option.some.inj hone)
  have hn' := congrArg SlotAgg.n hagg
  rw [MetricSummary.agg, aggOf, List.length_map, htwo] at hn'
  exact absurd (hn.symm.trans hn') (by decide)

end Usage

end Wkp
