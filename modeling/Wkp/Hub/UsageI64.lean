import Wkp.Hub.UsageAgree
import Wkp.Lib.Checked

/-!
# The arithmetic of the usage rings

The times, steps and slots of the usage rings are numbers of 64 bits, and some products of them are not.

* `Hub.UsageDb.recordI64`, `Hub.UsageDb.queryWindowI64` : the calls in 64 bits; none when an operation
  divides by zero or overflows.
* `Hub.UsageDb.Bounded` : what every call at a time that is not negative keeps.
* `Hub.UsageDb.recordI64_eq` : no call that records goes wrong.
* `Hub.SpansFit` : what the tiers have to satisfy for queries.
* `Hub.safe_iff` : **when no later call goes wrong.**
-/

namespace Wkp

open Rust Usage

namespace Hub

/-! ### The calls in 64 bits -/

/-- `floor_to_step`. -/
def floorToStepI64 (secs step : ℤ) : Option ℤ := do
  let q ← divEuclidI64 secs step
  mulI64 q step

/-- `slot_for`. -/
def slotForI64 (bucketStart stepSecs slots : ℤ) : Option ℤ := do
  let q ← divEuclidI64 bucketStart stepSecs
  remEuclidI64 q slots

/-- The search of `pick_tier_idx`, from the tier with index `i` on. -/
def findTierI64 (windowSecs : ℤ) : List TierConfig → ℕ → Option (Option ℕ)
  | [], _ => some none
  | t :: tiers, i => do
    let span ← mulI64 t.stepSecs t.slots
    if windowSecs ≤ span then return some i else findTierI64 windowSecs tiers (i + 1)

/-- `pick_tier_idx`. -/
def pickTierIdxI64 (tiers : List TierConfig) (windowSecs : ℤ) : Option ℕ :=
  (findTierI64 windowSecs tiers 0).map fun i => i.getD (tiers.length - 1)

namespace UsageDb

section

variable {α : Type} [Aggregate ℚ α]

/-- `apply`, from the tier with index `i` on.  The inner none is a cursor that points to no row. -/
def applyI64 (tenantId metricId : ℕ) :
    List TierConfig → ℕ → ℤ → α → UsageDb α → Option (Option (UsageDb α))
  | [], _, _, _, _ => some none
  | tier :: tiers, i, bucketStart, incoming, db =>
    let key : CursorKey := ⟨tenantId, metricId, i⟩
    match db.cursors.lookup key with
    | none => do
      let slot ← slotForI64 bucketStart tier.stepSecs tier.slots
      return some ((db.writeSlot key slot bucketStart incoming).setCursor key slot bucketStart)
    | some cursor =>
      match db.fetchSlot key cursor.slot with
      | none => some none
      | some existing =>
        if cursor.bucketStart = bucketStart then
          some (some (db.writeSlot key cursor.slot bucketStart
            (Aggregate.mergedWith existing incoming true)))
        else if bucketStart < cursor.bucketStart then
          some (some (db.writeSlot key cursor.slot cursor.bucketStart
            (Aggregate.mergedWith existing incoming false)))
        else do
          let folded ← match tiers with
            | [] => some (some db)
            | next :: _ => do
              let nextBucketStart ← floorToStepI64 cursor.bucketStart next.stepSecs
              applyI64 tenantId metricId tiers (i + 1) nextBucketStart existing db
          match folded with
          | none => return none
          | some db => do
            let slot ← slotForI64 bucketStart tier.stepSecs tier.slots
            return some
              ((db.writeSlot key slot bucketStart incoming).setCursor key slot bucketStart)

/-- `record`, in its transaction. -/
def recordI64 (db : UsageDb α) (r : UsageSample) : Option (Option (Except Error Unit × UsageDb α)) :=
  match db.getOrCreateMetric r.name r.kind with
  | (.error e, db) => some (some (.error e, db))
  | (.ok metricId, created) =>
    match created.loadTierConfig with
    | [] => some (some (.error (.invalidInput
        ("usage_metrics_config has no tiers -- schema not initialized correctly".toList)),
          { db with nextMetricId := created.nextMetricId }))
    | tier :: tiers => do
      let bucketStart ← floorToStepI64 r.secs tier.stepSecs
      let applied ← created.applyI64 r.tenantId metricId (tier :: tiers) 0 bucketStart
        (Aggregate.single r)
      return applied.map fun db => (.ok (), db)

end

/-- `query_window`, for a window of whole seconds. -/
def queryWindowI64 (db : UsageDb SlotAgg) (tenantId : ℕ) (name : Str) (window : ℕ) (nanos : ℤ) :
    Option MetricSummary :=
  match db.metrics.find? fun m => m.name = name with
  | none => some .empty
  | some m =>
    match db.loadTierConfig with
    | [] => some .empty
    | tier :: tiers => do
      let windowSecs := asI64 window
      let cutoff ← subI64 (nanos / 1000000000) windowSecs
      let picked ← pickTierIdxI64 (tier :: tiers) windowSecs
      let rows := db.selectRows ⟨tenantId, m.id, picked⟩ cutoff
      let finer := (List.range picked).filterMap fun i => db.openRow ⟨tenantId, m.id, i⟩ cutoff
      return ((rows ++ finer).foldl
        (fun (acc : WindowAcc) row => acc.absorb row.bucketStart row.agg) {}).intoSummary

end UsageDb

/-! ### Times that are not negative -/

/-- A time that is not negative and fits. -/
def IsTime (secs : ℤ) : Prop := 0 ≤ secs ∧ secs ≤ maxI64

instance (secs : ℤ) : Decidable (IsTime secs) := inferInstanceAs (Decidable (_ ∧ _))

/-- The steps and the slots of a tier are positive. -/
def TierConfig.Positive (tier : TierConfig) : Prop := 0 < tier.stepSecs ∧ 0 < tier.slots

theorem isTime_floorToStep {secs step : ℤ} (h : IsTime secs) (hstep : 0 < step) :
    IsTime (floorToStep secs step) :=
  ⟨Int.mul_nonneg (Int.ediv_nonneg h.1 hstep.le) hstep.le,
    (Int.ediv_mul_le secs hstep.ne').trans h.2⟩

theorem floorToStepI64_eq {secs step : ℤ} (h : IsTime secs) (hstep : 0 < step) :
    floorToStepI64 secs step = some (floorToStep secs step) := by
  have hfloor := isTime_floorToStep h hstep
  rw [floorToStepI64, divEuclidI64_eq h.1 h.2 hstep]
  exact checkI64_eq hfloor.1 hfloor.2

theorem slotForI64_eq {bucketStart : ℤ} (h : IsTime bucketStart) {tier : TierConfig}
    (htier : tier.Positive) : slotForI64 bucketStart tier.stepSecs tier.slots =
      some (slotFor bucketStart tier.stepSecs tier.slots) := by
  rw [slotForI64, divEuclidI64_eq h.1 h.2 htier.1]
  exact remEuclidI64_eq (Int.ediv_nonneg h.1 htier.1.le) (ediv_le_maxI64 h.1 h.2) htier.2

namespace UsageDb

section

variable {α : Type}

/-- The tiers are positive, and the open windows start at times. -/
structure Bounded (db : UsageDb α) : Prop where
  /-- The tiers. -/
  tier : ∀ i tier, db.config.lookup i = some tier → tier.Positive
  /-- The open windows. -/
  cursor : ∀ key cursor, db.cursors.lookup key = some cursor → IsTime cursor.bucketStart

variable {db : UsageDb α}

theorem bounded_init : Bounded ({} : UsageDb α) where
  tier i tier h := by
    have hmem := AList.mem_lookup_iff.1 h
    have hall : ∀ e ∈ ({} : UsageDb α).config.entries, e.2.Positive := by
      change ∀ e ∈ ([⟨0, ⟨60, 360⟩⟩, ⟨1, ⟨900, 1344⟩⟩, ⟨2, ⟨21600, 1460⟩⟩] :
        List (Sigma fun _ : ℕ => TierConfig)), e.2.Positive
      simp [TierConfig.Positive]
    exact hall _ hmem
  cursor _ _ hc := by cases hc

theorem Bounded.of_mem_loadTierConfig (h : db.Bounded) {tier : TierConfig}
    (ht : tier ∈ db.loadTierConfig) : tier.Positive := by
  obtain ⟨i, -, hi⟩ := List.mem_filterMap.1 ht
  exact h.tier i tier hi

theorem lookup_setTierConfig {tierIdx stepSecs slots : ℤ} {i : ℕ} {tier : TierConfig}
    (hi : (db.setTierConfig tierIdx stepSecs slots).2.config.lookup i = some tier) :
    db.config.lookup i = some tier ∨ 1 ≤ stepSecs ∧ 1 ≤ slots ∧ tier = ⟨stepSecs, slots⟩ := by
  unfold UsageDb.setTierConfig at hi
  split_ifs at hi with htier hstep
  · exact .inl hi
  · by_cases heq : i = tierIdx.toNat
    · subst heq
      rw [AList.lookup_insert] at hi
      exact .inr ⟨by omega, by omega, (Option.some.inj hi).symm⟩
    · rw [AList.lookup_insert_ne heq] at hi
      exact .inl hi
  · exact .inl hi

theorem Bounded.setTierConfig (h : db.Bounded) (tierIdx stepSecs slots : ℤ) :
    (db.setTierConfig tierIdx stepSecs slots).2.Bounded := by
  refine ⟨fun i tier hi => ?_, fun key cursor hc => ?_⟩
  · obtain hi | ⟨hstep, hslots, rfl⟩ := lookup_setTierConfig hi
    · exact h.tier i tier hi
    · exact ⟨by dsimp only; omega, by dsimp only; omega⟩
  · unfold UsageDb.setTierConfig at hc
    split_ifs at hc
    · exact h.cursor key cursor hc
    · exact h.cursor key cursor (Assoc.lookup_keep_eq_some_iff.1 hc).2
    · exact h.cursor key cursor hc

theorem Bounded.writeSlot (h : db.Bounded) (key : CursorKey) (slot bucketStart : ℤ) (agg : α) :
    (db.writeSlot key slot bucketStart agg).Bounded := ⟨h.tier, h.cursor⟩

theorem Bounded.openWindow (h : db.Bounded) (tier : TierConfig) (key : CursorKey)
    {bucketStart : ℤ} (hb : IsTime bucketStart) (agg : α) :
    (db.openWindow tier key bucketStart agg).Bounded := by
  refine ⟨h.tier, fun key' cursor hc => ?_⟩
  change (AList.insert key _ db.cursors).lookup key' = some cursor at hc
  by_cases heq : key' = key
  · subst heq
    rw [AList.lookup_insert] at hc
    obtain rfl := Option.some.inj hc
    exact hb
  · rw [AList.lookup_insert_ne heq] at hc
    exact h.cursor key' cursor hc

theorem Bounded.getOrCreateMetric (h : db.Bounded) (name : Str) (kind : MetricKind) :
    (db.getOrCreateMetric name kind).2.Bounded := by
  obtain ⟨metrics, nextMetricId, hsnd⟩ := db.getOrCreateMetric_snd name kind
  rw [hsnd]
  exact ⟨h.tier, h.cursor⟩

theorem exists_getOrCreateMetric (db : UsageDb α) (name : Str) : ∃ kind metricId created,
    db.getOrCreateMetric name kind = (.ok metricId, created) ∧ created.cursors = db.cursors ∧
      created.config = db.config ∧ ∃ m ∈ created.metrics, m.name = name := by
  cases hfind : db.metrics.find? fun m => m.name = name with
  | none =>
    refine ⟨.counter, db.nextMetricId, { db with
      nextMetricId := db.nextMetricId + 1
      metrics := db.metrics ++ [⟨db.nextMetricId, name, .counter⟩] }, ?_, rfl, rfl, _,
      List.mem_append_right _ (List.mem_singleton_self _), rfl⟩
    rw [UsageDb.getOrCreateMetric, hfind]
  | some m =>
    refine ⟨m.kind, m.id, { db with nextMetricId := db.nextMetricId + 1 }, ?_, rfl, rfl, m,
      List.mem_of_find?_eq_some hfind, by simpa using List.find?_some hfind⟩
    rw [UsageDb.getOrCreateMetric, hfind]
    exact if_neg (not_not.2 rfl)

/-! ### Samples -/

variable [Aggregate ℚ α]

/-- `apply` does nothing that overflows. -/
theorem applyI64_eq (h : db.Bounded) {tenantId metricId i : ℕ} {tiers : List TierConfig}
    (htiers : ∀ t ∈ tiers, t.Positive) {bucketStart : ℤ} (hb : IsTime bucketStart) (incoming : α) :
    db.applyI64 tenantId metricId tiers i bucketStart incoming =
      some (db.apply tenantId metricId tiers i bucketStart incoming) := by
  -- tier by tier: an open window starts at a time, and so does the one it closes into
  induction tiers generalizing i bucketStart incoming with
  | nil => rfl
  | cons tier tiers ih =>
    have hslot := slotForI64_eq hb (htiers tier List.mem_cons_self)
    rw [applyI64]
    dsimp only
    cases hc : db.cursors.lookup ⟨tenantId, metricId, i⟩ with
    | none =>
      rw [apply_of_cursor_eq_none hc]
      dsimp only
      rw [hslot]
      rfl
    | some cursor =>
      rw [apply_of_cursor hc]
      dsimp only
      cases db.fetchSlot ⟨tenantId, metricId, i⟩ cursor.slot with
      | none => rfl
      | some existing =>
        simp only [Option.bind_some]
        split_ifs
        · rfl
        · rfl
        · cases tiers with
          | nil =>
            simp only [hslot, Option.bind_eq_bind, Option.bind_some]
            rfl
          | cons next tiers =>
            have hnext := floorToStepI64_eq (h.cursor _ cursor hc)
              (htiers next (by simp)).1
            have hrest := ih (fun t ht => htiers t (List.mem_cons_of_mem _ ht)) (i := i + 1)
              (isTime_floorToStep (h.cursor _ cursor hc) (htiers next (by simp)).1) existing
            simp only [hnext, hrest, foldUp, Option.bind_eq_bind, Option.bind_some]
            cases db.apply tenantId metricId (next :: tiers) (i + 1)
                (floorToStep cursor.bucketStart next.stepSecs) existing with
            | none => rfl
            | some db' =>
              simp only [hslot, Option.bind_some]
              rfl

theorem Bounded.apply (h : db.Bounded) {tenantId metricId i : ℕ} {tiers : List TierConfig}
    (htiers : ∀ t ∈ tiers, t.Positive) {bucketStart : ℤ} (hb : IsTime bucketStart) {incoming : α}
    {db' : UsageDb α}
    (happly : db.apply tenantId metricId tiers i bucketStart incoming = some db') :
    db'.Bounded := by
  induction tiers generalizing i bucketStart incoming db' with
  | nil => cases happly
  | cons tier tiers ih =>
    cases hc : db.cursors.lookup ⟨tenantId, metricId, i⟩ with
    | none =>
      rw [apply_of_cursor_eq_none hc] at happly
      exact Option.some.inj happly ▸ h.openWindow tier _ hb incoming
    | some cursor =>
      rw [apply_of_cursor hc] at happly
      obtain ⟨existing, -, happly⟩ := Option.bind_eq_some_iff.1 happly
      split_ifs at happly
      · exact Option.some.inj happly ▸ h.writeSlot _ _ _ _
      · exact Option.some.inj happly ▸ h.writeSlot _ _ _ _
      · obtain ⟨folded, hfold, rfl⟩ := Option.map_eq_some_iff.1 happly
        refine Bounded.openWindow ?_ tier _ hb incoming
        cases tiers with
        | nil => exact Option.some.inj hfold ▸ h
        | cons next tiers =>
          exact ih (fun t ht => htiers t (List.mem_cons_of_mem _ ht))
            (isTime_floorToStep (h.cursor _ cursor hc) (htiers next (by simp)).1) hfold

/-- **No call that records goes wrong.** -/
theorem recordI64_eq (h : db.Bounded) {r : UsageSample} (hr : IsTime r.secs) :
    db.recordI64 r = some (db.record r) := by
  have hcreated := h.getOrCreateMetric r.name r.kind
  rw [recordI64, record]
  rcases hget : db.getOrCreateMetric r.name r.kind with ⟨e | metricId, created⟩
  · rfl
  · rw [hget] at hcreated
    dsimp only at hcreated ⊢
    cases htiers : created.loadTierConfig with
    | nil => rfl
    | cons tier tiers =>
      have hpos : ∀ t ∈ tier :: tiers, t.Positive := fun t ht =>
        hcreated.of_mem_loadTierConfig (htiers ▸ ht)
      have hstep := (hpos tier List.mem_cons_self).1
      simp only [floorToStepI64_eq hr hstep, Option.bind_eq_bind, Option.bind_some,
        applyI64_eq hcreated hpos (isTime_floorToStep hr hstep)]
      rfl

theorem Bounded.record (h : db.Bounded) {r : UsageSample} (hr : IsTime r.secs)
    {result : Except Error Unit} {db' : UsageDb α} (hrecord : db.record r = some (result, db')) :
    db'.Bounded := by
  have hcreated := h.getOrCreateMetric r.name r.kind
  rw [UsageDb.record] at hrecord
  rcases hget : db.getOrCreateMetric r.name r.kind with ⟨e | metricId, created⟩
  · rw [hget] at hrecord hcreated
    exact (Prod.mk.inj (Option.some.inj hrecord)).2 ▸ hcreated
  · rw [hget] at hrecord hcreated
    dsimp only at hrecord hcreated
    cases htiers : created.loadTierConfig with
    | nil =>
      rw [htiers] at hrecord
      exact (Prod.mk.inj (Option.some.inj hrecord)).2 ▸ ⟨h.tier, h.cursor⟩
    | cons tier tiers =>
      have hpos : ∀ t ∈ tier :: tiers, t.Positive := fun t ht =>
        hcreated.of_mem_loadTierConfig (htiers ▸ ht)
      rw [htiers] at hrecord
      dsimp only at hrecord
      obtain ⟨applied, happly, heq⟩ := Option.map_eq_some_iff.1 hrecord
      obtain rfl := (Prod.mk.inj heq).2
      exact hcreated.apply hpos (isTime_floorToStep hr (hpos tier List.mem_cons_self).1) happly

theorem config_record {r : UsageSample} {result : Except Error Unit} {db' : UsageDb α}
    (hrecord : db.record r = some (result, db')) : db'.config = db.config := by
  obtain ⟨metrics, nextMetricId, hsnd⟩ := db.getOrCreateMetric_snd r.name r.kind
  rw [UsageDb.record] at hrecord
  rcases hget : db.getOrCreateMetric r.name r.kind with ⟨e | metricId, created⟩
  · rw [hget] at hrecord hsnd
    obtain rfl := (Prod.mk.inj (Option.some.inj hrecord)).2
    exact (congrArg UsageDb.config hsnd :)
  · rw [hget] at hrecord hsnd
    dsimp only at hrecord hsnd
    cases htiers : created.loadTierConfig with
    | nil =>
      rw [htiers] at hrecord
      exact (Prod.mk.inj (Option.some.inj hrecord)).2 ▸ rfl
    | cons tier tiers =>
      rw [htiers] at hrecord
      dsimp only at hrecord
      obtain ⟨applied, happly, heq⟩ := Option.map_eq_some_iff.1 hrecord
      obtain rfl := (Prod.mk.inj heq).2
      exact (elsewhere_apply (n := (tier :: tiers).length) (by simp) happly).config.trans
        (hsnd ▸ rfl)

theorem exists_record (db : UsageDb α) {tier : TierConfig} {tiers : List TierConfig}
    (htiers : db.loadTierConfig = tier :: tiers) (name : Str) :
    ∃ (r : UsageSample) (result : Except Error Unit) (db' : UsageDb α),
      r.nanos = 0 ∧ db.record r = some (result, db') ∧ ∃ m ∈ db'.metrics, m.name = name := by
  obtain ⟨kind, metricId, created, hget, hcursors, hconfig, hm⟩ := exists_getOrCreateMetric db name
  obtain ⟨tenantId, hfresh⟩ :=
    Infinite.exists_notMem_finset (db.cursors.keys.map CursorKey.tenantId).toFinset
  have hnone : created.cursors.lookup ⟨tenantId, metricId, 0⟩ = none := by
    rw [hcursors, AList.lookup_eq_none]
    exact fun hmem => hfresh (List.mem_toFinset.2 (List.mem_map_of_mem hmem))
  have hload : created.loadTierConfig = tier :: tiers := by
    rw [← htiers, loadTierConfig, hconfig]
    rfl
  refine ⟨⟨tenantId, name, kind, 0, 0⟩, .ok (),
    created.openWindow tier ⟨tenantId, metricId, 0⟩ (floorToStep 0 tier.stepSecs)
      (Aggregate.single ⟨tenantId, name, kind, 0, 0⟩), rfl, ?_, hm⟩
  rw [UsageDb.record, hget]
  dsimp only
  rw [hload]
  dsimp only
  rw [apply_of_cursor_eq_none hnone, Option.map_some]
  rfl

end

end UsageDb

/-! ### Queries -/

/-- What the tiers have to satisfy: the spans fit, up to a tier that has the longest span there is. -/
def SpansFit : List TierConfig → Prop
  | [] => True
  | tier :: tiers => tier.stepSecs * tier.slots ≤ maxI64 ∧
      (tier.stepSecs * tier.slots = maxI64 ∨ SpansFit tiers)

variable {tiers : List TierConfig}

theorem SpansFit.of_forall (h : ∀ t ∈ tiers, t.stepSecs * t.slots ≤ maxI64) : SpansFit tiers := by
  induction tiers with
  | nil => trivial
  | cons tier tiers ih =>
    exact ⟨h tier List.mem_cons_self, .inr (ih fun t ht => h t (List.mem_cons_of_mem _ ht))⟩

/-- The search computes the spans that it compares, and no others. -/
theorem findTierI64_eq (hpos : ∀ t ∈ tiers, t.Positive) (hfit : SpansFit tiers) {windowSecs : ℤ}
    (hwindow : windowSecs ≤ maxI64) (i : ℕ) : findTierI64 windowSecs tiers i =
      some ((tiers.findIdx? fun t => windowSecs ≤ t.stepSecs * t.slots).map (· + i)) := by
  induction tiers generalizing i with
  | nil => rfl
  | cons tier tiers ih =>
    have htier := hpos tier List.mem_cons_self
    have hspan : mulI64 tier.stepSecs tier.slots = some (tier.stepSecs * tier.slots) :=
      checkI64_eq (Int.mul_nonneg htier.1.le htier.2.le) hfit.1
    rw [findTierI64, hspan, Option.bind_eq_bind, Option.bind_some, List.findIdx?_cons]
    by_cases hle : windowSecs ≤ tier.stepSecs * tier.slots
    · simp [hle]
    · have hrest : SpansFit tiers := hfit.2.resolve_left fun heq => hle (heq ▸ hwindow)
      rw [if_neg hle, ih (fun t ht => hpos t (List.mem_cons_of_mem _ ht)) hrest]
      simp [hle, Function.comp_def, Nat.add_assoc, Nat.add_comm 1 i]

/-- The longest window makes the search compute every span up to one that is as long. -/
theorem findTierI64_eq_none (hpos : ∀ t ∈ tiers, t.Positive) (hfit : ¬ SpansFit tiers) (i : ℕ) :
    findTierI64 maxI64 tiers i = none := by
  induction tiers generalizing i with
  | nil => exact absurd trivial hfit
  | cons tier tiers ih =>
    have htier := hpos tier List.mem_cons_self
    have hnonneg : 0 ≤ tier.stepSecs * tier.slots := Int.mul_nonneg htier.1.le htier.2.le
    rw [findTierI64]
    by_cases hle : tier.stepSecs * tier.slots ≤ maxI64
    · have hne : tier.stepSecs * tier.slots ≠ maxI64 := fun heq => hfit ⟨hle, .inl heq⟩
      have hrest : ¬ SpansFit tiers := fun hrest => hfit ⟨hle, .inr hrest⟩
      rw [mulI64, checkI64_eq hnonneg hle, Option.bind_eq_bind, Option.bind_some,
        if_neg fun hge => hne (Int.le_antisymm hle hge)]
      exact ih (fun t ht => hpos t (List.mem_cons_of_mem _ ht)) hrest (i + 1)
    · rw [mulI64, (checkI64_eq_none_iff hnonneg).2 (not_le.1 hle)]
      rfl

namespace UsageDb

variable {db : UsageDb SlotAgg}

/-- **No query goes wrong when the spans fit.** -/
theorem queryWindowI64_eq (h : db.Bounded) (hfit : SpansFit db.loadTierConfig) (tenantId : ℕ)
    (name : Str) {window : ℕ} (hwindow : (window : ℤ) ≤ maxI64) {nanos : ℤ}
    (hnanos : IsTime (nanos / 1000000000)) :
    db.queryWindowI64 tenantId name window nanos =
      some (db.queryWindow tenantId name window nanos) := by
  have hasI64 : asI64 window = window := asI64_eq (by unfold maxI64 at hwindow; omega)
  have hcutoff : subI64 (nanos / 1000000000) window = some (nanos / 1000000000 - window) := by
    unfold IsTime maxI64 at hnanos
    unfold maxI64 at hwindow
    exact if_pos ⟨by omega, by unfold maxI64; omega⟩
  have hcutoff' := cutoffOf_eq hnanos.1 (Int.natCast_nonneg window)
  rw [queryWindowI64, queryWindow]
  cases db.metrics.find? fun m => m.name = name with
  | none => rfl
  | some m =>
    dsimp only
    cases htiers : db.loadTierConfig with
    | nil => rfl
    | cons tier tiers =>
      have hpos : ∀ t ∈ tier :: tiers, t.Positive := fun t ht =>
        h.of_mem_loadTierConfig (htiers ▸ ht)
      have hpick : pickTierIdxI64 (tier :: tiers) window =
          some (pickTierIdx (tier :: tiers) window) := by
        rw [pickTierIdxI64, findTierI64_eq hpos (htiers ▸ hfit) hwindow, pickTierIdx]
        simp
      simp only [hasI64, hcutoff, hcutoff', hpick, Option.bind_eq_bind, Option.bind_some]
      rfl

/-- **Otherwise the query for the longest window goes wrong**, for every metric and tenant. -/
theorem queryWindowI64_eq_none (h : db.Bounded) (hfit : ¬ SpansFit db.loadTierConfig) {m : MetricRow}
    (hm : m ∈ db.metrics) (tenantId : ℕ) :
    db.queryWindowI64 tenantId m.name (2 ^ 63 - 1) 0 = none := by
  have hasI64 : asI64 (2 ^ 63 - 1) = maxI64 := asI64_eq (by decide)
  have hcutoff : subI64 (0 / 1000000000) maxI64 = some (0 / 1000000000 - maxI64) := by decide
  rw [queryWindowI64]
  cases hfind : db.metrics.find? fun m' => m'.name = m.name with
  | none => exact absurd (decide_eq_true rfl) (List.find?_eq_none.1 hfind m hm)
  | some m' =>
    dsimp only
    cases htiers : db.loadTierConfig with
    | nil =>
      rw [htiers] at hfit
      exact absurd trivial hfit
    | cons tier tiers =>
      have hpos : ∀ t ∈ tier :: tiers, t.Positive := fun t ht =>
        h.of_mem_loadTierConfig (htiers ▸ ht)
      have hpick : pickTierIdxI64 (tier :: tiers) maxI64 = none := by
        rw [pickTierIdxI64, findTierI64_eq_none hpos (htiers ▸ hfit)]
        rfl
      simp only [hasI64, hcutoff, hpick, Option.bind_eq_bind, Option.bind_some, Option.bind_none]

end UsageDb

/-! ### Runs -/

/-- A call at a time that is not negative. -/
def UsageCall.AtTime : UsageCall → Prop
  | record r => IsTime r.secs
  | setTierConfig .. => True

/-- The product that `set_tier_config` does not check. -/
def UsageCall.SpanFits : UsageCall → Prop
  | record _ => True
  | setTierConfig _ stepSecs slots => 1 ≤ stepSecs → 1 ≤ slots → stepSecs * slots ≤ maxI64

namespace UsageCall

variable {α : Type} [Aggregate ℚ α]

/-- A call in 64 bits. -/
def execI64 (db : UsageDb α) : UsageCall → Option (Option (Except Error Unit × UsageDb α))
  | record r => db.recordI64 r
  | setTierConfig tierIdx stepSecs slots => some (some (db.setTierConfig tierIdx stepSecs slots))

/-- Calls in 64 bits, one after another. -/
def execAllI64 : UsageDb α → List UsageCall → Option (Option (UsageDb α))
  | db, [] => some (some db)
  | db, call :: calls => do
    match ← call.execI64 db with
    | none => return none
    | some (_, db) => execAllI64 db calls

end UsageCall

namespace UsageDb

section

variable {α : Type} [Aggregate ℚ α] {calls : List UsageCall} {db : UsageDb α}

theorem Bounded.exec (h : db.Bounded) {call : UsageCall} (hcall : call.AtTime)
    {result : Except Error Unit} {db' : UsageDb α} (hexec : call.exec db = some (result, db')) :
    db'.Bounded := by
  cases call with
  | record r => exact h.record hcall hexec
  | setTierConfig tierIdx stepSecs slots =>
    obtain rfl : (db.setTierConfig tierIdx stepSecs slots).2 = db' :=
      congrArg Prod.snd (Option.some.inj hexec)
    exact h.setTierConfig tierIdx stepSecs slots

theorem Bounded.execAll (hcalls : ∀ call ∈ calls, call.AtTime) {db' : UsageDb α} (h : db.Bounded)
    (hexec : UsageCall.execAll db calls = some db') : db'.Bounded := by
  induction calls generalizing db with
  | nil => exact Option.some.inj hexec ▸ h
  | cons call calls ih =>
    obtain ⟨hcall, hcalls⟩ := List.forall_mem_cons.1 hcalls
    rw [UsageCall.execAll] at hexec
    obtain ⟨⟨result, db₁⟩, hstep, hexec⟩ := Option.bind_eq_some_iff.1 hexec
    exact ih hcalls (h.exec hcall hstep) hexec

/-- **No call at a time that is not negative goes wrong**, whatever tiers there are. -/
theorem Bounded.execAllI64_eq (h : db.Bounded) (hcalls : ∀ call ∈ calls, call.AtTime) :
    UsageCall.execAllI64 db calls = some (UsageCall.execAll db calls) := by
  induction calls generalizing db with
  | nil => rfl
  | cons call calls ih =>
    obtain ⟨hcall, hcalls⟩ := List.forall_mem_cons.1 hcalls
    have hexec : call.execI64 db = some (call.exec db) := by
      cases call with
      | record r => exact recordI64_eq h hcall
      | setTierConfig => rfl
    rw [UsageCall.execAllI64, hexec, UsageCall.execAll, Option.bind_eq_bind, Option.bind_some]
    cases hstep : call.exec db with
    | none => rfl
    | some x => exact ih (h.exec hcall hstep) hcalls

end

theorem config_execAll {α : Type} [Aggregate ℚ α] {later : List UsageSample} {db db' : UsageDb α}
    (hexec : UsageCall.execAll db (later.map .record) = some db') : db'.config = db.config := by
  induction later generalizing db with
  | nil => exact Option.some.inj hexec ▸ rfl
  | cons r later ih =>
    rw [List.map_cons, UsageCall.execAll] at hexec
    obtain ⟨⟨result, db₁⟩, hcall, hexec⟩ := Option.bind_eq_some_iff.1 hexec
    exact (ih hexec).trans (config_record hcall)

/-- Spans that `set_tier_config` would have had to check, and the seeds. -/
theorem span_le_of_execAll {α : Type} [Aggregate ℚ α] {calls : List UsageCall}
    (hcalls : ∀ call ∈ calls, call.SpanFits) {db db' : UsageDb α}
    (h : ∀ i t, db.config.lookup i = some t → t.stepSecs * t.slots ≤ maxI64)
    (hexec : UsageCall.execAll db calls = some db') :
    ∀ i t, db'.config.lookup i = some t → t.stepSecs * t.slots ≤ maxI64 := by
  induction calls generalizing db with
  | nil => exact Option.some.inj hexec ▸ h
  | cons call calls ih =>
    rw [UsageCall.execAll] at hexec
    obtain ⟨⟨result, db₁⟩, hcall, hexec⟩ := Option.bind_eq_some_iff.1 hexec
    refine ih (fun call' hcall' => hcalls call' (List.mem_cons_of_mem _ hcall')) ?_ hexec
    intro i t ht
    cases call with
    | record r => exact h i t (config_record hcall ▸ ht)
    | setTierConfig tierIdx stepSecs slots =>
      obtain rfl := congrArg Prod.snd (Option.some.inj hcall)
      obtain ht | ⟨hstep, hslots, rfl⟩ := lookup_setTierConfig ht
      · exact h i t ht
      · exact hcalls _ List.mem_cons_self hstep hslots

/-- No later call goes wrong, at whatever times the calls come. -/
def Safe (db : UsageDb SlotAgg) : Prop :=
  ∀ later : List UsageSample, (∀ r ∈ later, IsTime r.secs) →
    ∀ db', UsageCall.execAll db (later.map .record) = some db' →
      (∀ r : UsageSample, IsTime r.secs → db'.recordI64 r = some (db'.record r)) ∧
      ∀ (tenantId : ℕ) (name : Str) (window : ℕ) (nanos : ℤ), (window : ℤ) ≤ maxI64 →
        IsTime (nanos / 1000000000) → db'.queryWindowI64 tenantId name window nanos =
          some (db'.queryWindow tenantId name window nanos)

variable {db : UsageDb SlotAgg}

theorem Bounded.safe_iff_spansFit (h : db.Bounded) : db.Safe ↔ SpansFit db.loadTierConfig := by
  constructor
  · intro hsafe
    by_contra hfit
    have hne : db.loadTierConfig ≠ [] := fun hnil => hfit (by rw [hnil]; trivial)
    obtain ⟨tier, tiers, htiers⟩ := List.exists_cons_of_ne_nil hne
    obtain ⟨r, result, db', hnanos, hrecord, m, hm, -⟩ := exists_record db htiers []
    have hr : IsTime r.secs := by
      rw [UsageSample.secs, hnanos]
      decide
    have hexec : UsageCall.execAll db ([r].map .record) = some db' := by
      rw [List.map_singleton, UsageCall.execAll, UsageCall.exec, hrecord]
      rfl
    have hquery := (hsafe [r] (by simpa using hr) db' hexec).2 0 m.name (2 ^ 63 - 1) 0 (by decide)
      (by decide)
    have hload : db'.loadTierConfig = db.loadTierConfig := by
      rw [loadTierConfig, config_record hrecord, loadTierConfig]
    rw [queryWindowI64_eq_none (h.record hr hrecord) (hload ▸ hfit) hm] at hquery
    cases hquery
  · intro hfit later hlater db' hexec
    have hcalls : ∀ call ∈ later.map UsageCall.record, call.AtTime := by
      simpa [UsageCall.AtTime] using hlater
    have hbounded := h.execAll hcalls hexec
    have hload : db'.loadTierConfig = db.loadTierConfig := by
      rw [loadTierConfig, config_execAll hexec, loadTierConfig]
    exact ⟨fun r hr => recordI64_eq hbounded hr, fun tenantId name window nanos hwindow hnanos =>
      queryWindowI64_eq hbounded (hload ▸ hfit) tenantId name hwindow hnanos⟩

end UsageDb

/-- **When no later call goes wrong**: the spans of the tiers have to fit, which `set_tier_config` does
not check. -/
theorem safe_iff {calls : List UsageCall} (hcalls : ∀ call ∈ calls, call.AtTime)
    {db : UsageDb SlotAgg} (hexec : UsageCall.execAll {} calls = some db) :
    (db.Safe ↔ SpansFit db.loadTierConfig) ∧ ((∀ call ∈ calls, call.SpanFits) → db.Safe) := by
  have hbounded := UsageDb.bounded_init.execAll hcalls hexec
  refine ⟨hbounded.safe_iff_spansFit, fun hspans =>
    hbounded.safe_iff_spansFit.2 (.of_forall fun t ht => ?_)⟩
  obtain ⟨i, -, hi⟩ := List.mem_filterMap.1 ht
  refine UsageDb.span_le_of_execAll hspans (fun i t hi => ?_) hexec i t hi
  have hall : ∀ e ∈ ({} : UsageDb SlotAgg).config.entries, e.2.stepSecs * e.2.slots ≤ maxI64 := by
    decide
  exact hall _ (AList.mem_lookup_iff.1 hi)

/-- A tier whose span is two to the sixty-fourth. -/
def exampleWide : List UsageCall :=
  [.setTierConfig 0 (2 ^ 62) 4, .record ⟨1, "events".toList, .counter, 1, 0⟩]

theorem safe_iff_exampleWide : ∃ db : UsageDb SlotAgg, UsageCall.execAll {} exampleWide = some db ∧
    (db.Safe ↔ SpansFit db.loadTierConfig) ∧
      ((∀ call ∈ exampleWide, call.SpanFits) → db.Safe) := by
  have hsome : (UsageCall.execAll ({} : UsageDb SlotAgg) exampleWide).isSome := by decide
  obtain ⟨db, hdb⟩ := Option.isSome_iff_exists.1 hsome
  refine ⟨db, hdb, safe_iff ?_ hdb⟩
  simp only [exampleWide, List.forall_mem_cons]
  exact ⟨trivial, by unfold UsageCall.AtTime; decide, fun _ h => absurd h List.not_mem_nil⟩

/-- **A span that is refused by no check**: the calls succeed, and the query for an hour goes wrong. -/
theorem not_safe : ((({} : UsageDb SlotAgg).setTierConfig 0 (2 ^ 62) 4).1 = .ok ()) ∧
    ∃ db : UsageDb SlotAgg, UsageCall.execAll {} exampleWide = some db ∧
      db.queryWindowI64 1 "events".toList 3600 0 = none := by
  refine ⟨by decide, _, rfl, by decide⟩

end Hub

end Wkp
