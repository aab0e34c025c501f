import Wkp.Core.UsageTables
import Wkp.Hub.ControlPlane
import Wkp.Lib.Assoc

/-!
# The usage tables of the hub

The rings of `Usage` in two tables for all tenants, metrics and tiers; the steps and slots of the tiers
are a table, too.

* `Hub.UsageDb` : the tables.  The aggregate of a row is a parameter: a row only ever takes that of a
  sample, or merges two.
* `Hub.UsageDb.apply`, `Hub.UsageDb.record` : a sample, and the windows that close.
* `Hub.UsageDb.setTierConfig` : new steps and slots for a tier, which loses its rows.
* `Hub.UsageDb.queryWindow` : what a metric of a tenant has from the last seconds.
* `Hub.Gathered` : the samples of a row; `Hub.execAll_gathered` : **their aggregates are the rows.**
-/

namespace Wkp

open Rust Usage

namespace Hub

/-! ### Tables -/

/-- A sample of a tenant. -/
structure UsageSample (V : Type := ℚ) where
  /-- The tenant. -/
  tenantId : ℕ
  /-- The name of the metric. -/
  name : Str
  /-- Its kind. -/
  kind : MetricKind
  /-- The value. -/
  value : V
  /-- The time, in nanoseconds since the epoch. -/
  nanos : ℤ
  deriving DecidableEq

variable {V : Type}

/-- `unix_timestamp`: the time of a sample in whole seconds. -/
def UsageSample.secs (r : UsageSample V) : ℤ := r.nanos / 1000000000

/-- What a row of a ring has accumulated. -/
class Aggregate (V : outParam Type) (α : Type) where
  /-- One sample. -/
  single : UsageSample V → α
  /-- Both together, and whether the other one is the newer. -/
  mergedWith : α → α → Bool → α

instance [Add V] [Min V] [Max V] : Aggregate V (SlotAgg V) where
  single r := .single r.value
  mergedWith := .mergedWith

/-- A row of `usage_metrics_config`. -/
structure TierConfig where
  /-- The seconds that a slot covers. -/
  stepSecs : ℤ
  /-- The number of slots. -/
  slots : ℤ
  deriving DecidableEq

/-- The key of `usage_cursors`. -/
structure CursorKey where
  /-- The tenant. -/
  tenantId : ℕ
  /-- The metric. -/
  metricId : ℕ
  /-- The tier. -/
  tierIdx : ℕ
  deriving DecidableEq

/-- The key of `usage_ring`. -/
structure RingKey extends CursorKey where
  /-- The slot. -/
  slot : ℤ
  deriving DecidableEq

/-- A row of `usage_ring`. -/
structure UsageRow (α : Type) where
  /-- The start of the window that the slot holds. -/
  bucketStart : ℤ
  /-- What is in it. -/
  agg : α

/-- The tables of the usage metrics. -/
structure UsageDb (α : Type) where
  /-- `usage_metrics`. -/
  metrics : List MetricRow := []
  /-- The sequence of `usage_metrics.id`. -/
  nextMetricId : ℕ := 1
  /-- `usage_metrics_config`, as the schema seeds it. -/
  config : AList (fun _ : ℕ => TierConfig) :=
    [⟨0, ⟨60, 360⟩⟩, ⟨1, ⟨900, 1344⟩⟩, ⟨2, ⟨21600, 1460⟩⟩].toAList
  /-- `usage_ring`. -/
  ring : AList (fun _ : RingKey => UsageRow α) := ∅
  /-- `usage_cursors`. -/
  cursors : AList (fun _ : CursorKey => Cursor) := ∅

/-- `as_str`. -/
def metricKindStr : MetricKind → Str
  | .counter => "counter".toList
  | .gauge => "gauge".toList

namespace UsageDb

variable {α : Type}

/-- `load_tier_config`. -/
def loadTierConfig (db : UsageDb α) : List TierConfig := [0, 1, 2].filterMap db.config.lookup

/-- `set_tier_config`. -/
def setTierConfig (db : UsageDb α) (tierIdx stepSecs slots : ℤ) : Except Error Unit × UsageDb α :=
  if ¬ (0 ≤ tierIdx ∧ tierIdx ≤ 2) then
    (.error (.invalidInput ("tier_idx must be 0, 1, or 2 (the three canonical tiers ".toList ++
      "load_tier_config recognizes), got ".toList ++ (toString tierIdx).toList)), db)
  else if stepSecs < 1 ∨ slots < 1 then
    (.error (.invalidInput ("step_secs and slots must both be >= 1 (a zero or negative step/slot ".toList ++
      "count makes floor_to_step/slot_for divide by zero on every later record() call for this ".toList ++
      "tier), got step_secs=".toList ++ (toString stepSecs).toList ++ ", slots=".toList ++
      (toString slots).toList)), db)
  else
    (.ok (), { db with
      config := db.config.insert tierIdx.toNat ⟨stepSecs, slots⟩
      ring := Assoc.keep (fun key => key.tierIdx ≠ tierIdx.toNat) db.ring
      cursors := Assoc.keep (fun key => key.tierIdx ≠ tierIdx.toNat) db.cursors })

/-- `get_or_create_metric`: an upsert.  It takes a number from the sequence in any case. -/
def getOrCreateMetric (db : UsageDb α) (name : Str) (kind : MetricKind) :
    Except Error ℕ × UsageDb α :=
  let next := { db with nextMetricId := db.nextMetricId + 1 }
  match db.metrics.find? fun m => m.name = name with
  | some m =>
    if m.kind ≠ kind then
      (.error (.invalidInput ("metric '".toList ++ name ++ "' is already registered as '".toList ++
        metricKindStr m.kind ++ "', cannot record it as '".toList ++ metricKindStr kind ++
        "'".toList)), next)
    else (.ok m.id, next)
  | none => (.ok db.nextMetricId,
      { next with metrics := db.metrics ++ [⟨db.nextMetricId, name, kind⟩] })

theorem getOrCreateMetric_snd (db : UsageDb α) (name : Str) (kind : MetricKind) :
    ∃ metrics nextMetricId, (db.getOrCreateMetric name kind).2 =
      { db with metrics := metrics, nextMetricId := nextMetricId } := by
  unfold getOrCreateMetric
  dsimp only
  cases db.metrics.find? fun m => m.name = name with
  | none => exact ⟨_, _, rfl⟩
  | some m =>
    dsimp only
    split_ifs <;> exact ⟨_, _, rfl⟩

/-- `fetch_slot`. -/
def fetchSlot (db : UsageDb α) (key : CursorKey) (slot : ℤ) : Option α :=
  (db.ring.lookup ⟨key, slot⟩).map UsageRow.agg

/-- `write_slot`: an upsert. -/
def writeSlot (db : UsageDb α) (key : CursorKey) (slot bucketStart : ℤ) (agg : α) : UsageDb α :=
  { db with ring := db.ring.insert ⟨key, slot⟩ ⟨bucketStart, agg⟩ }

/-- `set_cursor`: an upsert. -/
def setCursor (db : UsageDb α) (key : CursorKey) (slot bucketStart : ℤ) : UsageDb α :=
  { db with cursors := db.cursors.insert key ⟨slot, bucketStart⟩ }

/-! ### UsageSample -/

section

variable [Aggregate V α]

/-- `apply`, from the tier with index `i` on.  None is a panic: a cursor that points to no row. -/
def apply (tenantId metricId : ℕ) :
    List TierConfig → ℕ → ℤ → α → UsageDb α → Option (UsageDb α)
  | [], _, _, _, _ => none
  | tier :: tiers, i, bucketStart, incoming, db =>
    let key : CursorKey := ⟨tenantId, metricId, i⟩
    match db.cursors.lookup key with
    | none =>
      let slot := slotFor bucketStart tier.stepSecs tier.slots
      some ((db.writeSlot key slot bucketStart incoming).setCursor key slot bucketStart)
    | some cursor => do
      let existing ← db.fetchSlot key cursor.slot
      if cursor.bucketStart = bucketStart then
        return db.writeSlot key cursor.slot bucketStart (Aggregate.mergedWith existing incoming true)
      else if bucketStart < cursor.bucketStart then
        return db.writeSlot key cursor.slot cursor.bucketStart
          (Aggregate.mergedWith existing incoming false)
      else
        let db ← match tiers with
          | [] => some db
          | next :: _ =>
            apply tenantId metricId tiers (i + 1)
              (floorToStep cursor.bucketStart next.stepSecs) existing db
        let slot := slotFor bucketStart tier.stepSecs tier.slots
        return (db.writeSlot key slot bucketStart incoming).setCursor key slot bucketStart

/-- Open a window, whatever its slot held before. -/
def openWindow (db : UsageDb α) (tier : TierConfig) (key : CursorKey) (bucketStart : ℤ) (agg : α) :
    UsageDb α :=
  (db.writeSlot key (slotFor bucketStart tier.stepSecs tier.slots) bucketStart agg).setCursor key
    (slotFor bucketStart tier.stepSecs tier.slots) bucketStart

/-- What `apply` does with the coarser tiers when a window closes. -/
def foldUp (tenantId metricId : ℕ) (tiers : List TierConfig) (i : ℕ) (bucketStart : ℤ) (agg : α)
    (db : UsageDb α) : Option (UsageDb α) :=
  match tiers with
  | [] => some db
  | next :: _ => db.apply tenantId metricId tiers i (floorToStep bucketStart next.stepSecs) agg

theorem apply_of_cursor_eq_none {tenantId metricId i : ℕ} {db : UsageDb α}
    (hc : db.cursors.lookup ⟨tenantId, metricId, i⟩ = none) (tier : TierConfig)
    (tiers : List TierConfig) (bucketStart : ℤ) (incoming : α) :
    db.apply tenantId metricId (tier :: tiers) i bucketStart incoming =
      some (db.openWindow tier ⟨tenantId, metricId, i⟩ bucketStart incoming) := by
  rw [apply]
  dsimp only
  rw [hc]
  rfl

theorem apply_of_cursor {tenantId metricId i : ℕ} {db : UsageDb α} {cursor : Cursor}
    (hc : db.cursors.lookup ⟨tenantId, metricId, i⟩ = some cursor) (tier : TierConfig)
    (tiers : List TierConfig) (bucketStart : ℤ) (incoming : α) :
    db.apply tenantId metricId (tier :: tiers) i bucketStart incoming =
      (db.fetchSlot ⟨tenantId, metricId, i⟩ cursor.slot).bind fun existing =>
        if cursor.bucketStart = bucketStart then
          some (db.writeSlot ⟨tenantId, metricId, i⟩ cursor.slot bucketStart
            (Aggregate.mergedWith existing incoming true))
        else if bucketStart < cursor.bucketStart then
          some (db.writeSlot ⟨tenantId, metricId, i⟩ cursor.slot cursor.bucketStart
            (Aggregate.mergedWith existing incoming false))
        else (db.foldUp tenantId metricId tiers (i + 1) cursor.bucketStart existing).map
          fun db => db.openWindow tier ⟨tenantId, metricId, i⟩ bucketStart incoming := by
  rw [apply]
  dsimp only
  rw [hc]
  dsimp only
  cases db.fetchSlot ⟨tenantId, metricId, i⟩ cursor.slot with
  | none => rfl
  | some existing =>
    simp only [Option.bind_eq_bind, Option.bind_some]
    split_ifs
    · rfl
    · rfl
    · cases tiers with
      | nil => rfl
      | cons next tiers => exact Option.map_eq_bind.symm

/-- `record`, in its transaction.  None is a panic. -/
def record (db : UsageDb α) (r : UsageSample V) : Option (Except Error Unit × UsageDb α) :=
  match db.getOrCreateMetric r.name r.kind with
  | (.error e, db) => some (.error e, db)
  | (.ok metricId, created) =>
    match created.loadTierConfig with
    | [] => some (.error (.invalidInput
        ("usage_metrics_config has no tiers -- schema not initialized correctly".toList)),
          { db with nextMetricId := created.nextMetricId })
    | tier :: tiers =>
      (created.apply r.tenantId metricId (tier :: tiers) 0 (floorToStep r.secs tier.stepSecs)
        (Aggregate.single r)).map fun db => (.ok (), db)

end

/-! ### Queries -/

/-- `pick_tier_idx`: the finest tier whose span covers the window, or else the coarsest. -/
def pickTierIdx (tiers : List TierConfig) (windowSecs : ℤ) : ℕ :=
  (tiers.findIdx? fun t => windowSecs ≤ t.stepSecs * t.slots).getD (tiers.length - 1)

/-- The rows of a tier of a metric that are not older than the cutoff. -/
def selectRows (db : UsageDb (SlotAgg V)) (key : CursorKey) (cutoff : ℤ) : List (Row V) :=
  ((db.ring.entries.filter fun e => e.1.toCursorKey = key).map fun e =>
    ⟨e.2.bucketStart, e.2.agg⟩).filter fun row => cutoff ≤ row.bucketStart

/-- The open window of a tier of a metric, unless it is older than the cutoff. -/
def openRow (db : UsageDb (SlotAgg V)) (key : CursorKey) (cutoff : ℤ) : Option (Row V) := do
  let cursor ← db.cursors.lookup key
  if cutoff ≤ cursor.bucketStart then
    let agg ← db.fetchSlot key cursor.slot
    return ⟨cursor.bucketStart, agg⟩
  else none

/-- `query_window`, for a window of whole seconds. -/
def queryWindow [Zero V] [Add V] [Min V] [Max V] (db : UsageDb (SlotAgg V)) (tenantId : ℕ)
    (name : Str) (window : ℕ) (nanos : ℤ) (order : RowOrder V := .stored) : MetricSummary V :=
  match db.metrics.find? fun m => m.name = name with
  | none => .empty
  | some m =>
    match db.loadTierConfig with
    | [] => .empty
    | tier :: tiers =>
      let windowSecs := asI64 window
      let cutoff := cutoffOf (nanos / 1000000000) windowSecs
      let picked := pickTierIdx (tier :: tiers) windowSecs
      let rows := order.arrange (db.selectRows ⟨tenantId, m.id, picked⟩ cutoff)
      let finer := (List.range picked).filterMap fun i => db.openRow ⟨tenantId, m.id, i⟩ cutoff
      ((rows ++ finer).foldl (fun (acc : WindowAcc V) row => acc.absorb row.bucketStart row.agg)
        {}).intoSummary

end UsageDb

/-! ### Calls -/

/-- A call that writes. -/
inductive UsageCall (V : Type := ℚ)
  | record (r : UsageSample V)
  | setTierConfig (tierIdx stepSecs slots : ℤ)

namespace UsageCall

variable {α : Type} [Aggregate V α]

/-- Serve a call.  None is a panic. -/
def exec (db : UsageDb α) : UsageCall V → Option (Except Error Unit × UsageDb α)
  | record r => db.record r
  | setTierConfig tierIdx stepSecs slots => some (db.setTierConfig tierIdx stepSecs slots)

/-- Serve calls, one after another.  One that is refused is followed by the next. -/
def execAll : UsageDb α → List (UsageCall V) → Option (UsageDb α)
  | db, [] => some db
  | db, call :: calls => do
    let (_, db) ← call.exec db
    execAll db calls

end UsageCall

/-! ### Other aggregates -/

/-- A change of aggregates that makes no difference to how they come about. -/
structure Aggregate.Hom {α β : Type} [Aggregate V α] [Aggregate V β] (f : α → β) : Prop where
  /-- Of one sample. -/
  single : ∀ r : UsageSample V, f (Aggregate.single r) = Aggregate.single r
  /-- Of both together. -/
  mergedWith : ∀ a b newer,
    f (Aggregate.mergedWith a b newer) = Aggregate.mergedWith (f a) (f b) newer

/-- The row with another aggregate. -/
def UsageRow.map {α β : Type} (f : α → β) (row : UsageRow α) : UsageRow β :=
  ⟨row.bucketStart, f row.agg⟩

namespace UsageDb

variable {α β : Type} (f : α → β)

/-- The tables with other aggregates. -/
def map (db : UsageDb α) : UsageDb β where
  metrics := db.metrics
  nextMetricId := db.nextMetricId
  config := db.config
  ring := Assoc.mapVal (UsageRow.map f) db.ring
  cursors := db.cursors

theorem fetchSlot_map (db : UsageDb α) (key : CursorKey) (slot : ℤ) :
    (db.map f).fetchSlot key slot = (db.fetchSlot key slot).map f := by
  rw [fetchSlot, fetchSlot, map, Assoc.lookup_mapVal, Option.map_map, Option.map_map]
  rfl

theorem map_writeSlot (db : UsageDb α) (key : CursorKey) (slot bucketStart : ℤ) (agg : α) :
    (db.writeSlot key slot bucketStart agg).map f =
      (db.map f).writeSlot key slot bucketStart (f agg) := by
  simp only [writeSlot, map, Assoc.mapVal_insert, UsageRow.map]

theorem map_setCursor (db : UsageDb α) (key : CursorKey) (slot bucketStart : ℤ) :
    (db.setCursor key slot bucketStart).map f = (db.map f).setCursor key slot bucketStart := rfl

theorem getOrCreateMetric_map (db : UsageDb α) (name : Str) (kind : MetricKind) :
    (db.map f).getOrCreateMetric name kind =
      ((db.getOrCreateMetric name kind).1, (db.getOrCreateMetric name kind).2.map f) := by
  unfold getOrCreateMetric
  dsimp only [map]
  cases db.metrics.find? fun m => m.name = name with
  | none => rfl
  | some m => dsimp only; split_ifs <;> rfl

theorem setTierConfig_map (db : UsageDb α) (tierIdx stepSecs slots : ℤ) :
    (db.map f).setTierConfig tierIdx stepSecs slots =
      ((db.setTierConfig tierIdx stepSecs slots).1,
        (db.setTierConfig tierIdx stepSecs slots).2.map f) := by
  unfold setTierConfig
  split_ifs
  · rfl
  · simp only [map, Assoc.mapVal_keep]
  · rfl

theorem map_openWindow (db : UsageDb α) (tier : TierConfig) (key : CursorKey) (bucketStart : ℤ)
    (agg : α) : (db.openWindow tier key bucketStart agg).map f =
      (db.map f).openWindow tier key bucketStart (f agg) := by
  rw [openWindow, openWindow, map_setCursor, map_writeSlot]

variable {f} [Aggregate V α] [Aggregate V β] (hf : Aggregate.Hom f)

include hf

theorem apply_map (tenantId metricId : ℕ) (tiers : List TierConfig) (i : ℕ) (bucketStart : ℤ)
    (incoming : α) (db : UsageDb α) :
    (db.map f).apply tenantId metricId tiers i bucketStart (f incoming) =
      (db.apply tenantId metricId tiers i bucketStart incoming).map (UsageDb.map f) := by
  induction tiers generalizing i bucketStart incoming db with
  | nil => rfl
  | cons tier tiers ih =>
    have hfold : ∀ bucketStart agg, (db.map f).foldUp tenantId metricId tiers (i + 1) bucketStart
        (f agg) = (db.foldUp tenantId metricId tiers (i + 1) bucketStart agg).map (UsageDb.map f) := by
      intro bucketStart agg
      cases tiers with
      | nil => rfl
      | cons next tiers => exact ih (i + 1) _ agg db
    cases hc : db.cursors.lookup ⟨tenantId, metricId, i⟩ with
    | none =>
      have hc' : (db.map f).cursors.lookup ⟨tenantId, metricId, i⟩ = none := hc
      rw [apply_of_cursor_eq_none hc, apply_of_cursor_eq_none hc', Option.map_some, map_openWindow]
    | some cursor =>
      have hc' : (db.map f).cursors.lookup ⟨tenantId, metricId, i⟩ = some cursor := hc
      rw [apply_of_cursor hc, apply_of_cursor hc', fetchSlot_map]
      cases db.fetchSlot ⟨tenantId, metricId, i⟩ cursor.slot with
      | none => rfl
      | some existing =>
        simp only [Option.map_some, Option.bind_some]
        split_ifs
        · rw [Option.map_some, map_writeSlot, hf.mergedWith]
        · rw [Option.map_some, map_writeSlot, hf.mergedWith]
        · rw [hfold, Option.map_map, Option.map_map]
          refine congrArg (Option.map · _) (funext fun db => ?_)
          exact (map_openWindow f db tier _ _ _).symm

theorem record_map (db : UsageDb α) (r : UsageSample V) :
    (db.map f).record r = (db.record r).map fun x => (x.1, x.2.map f) := by
  unfold record
  rw [getOrCreateMetric_map]
  cases db.getOrCreateMetric r.name r.kind with
  | mk result created =>
    cases result with
    | error e => rfl
    | ok metricId =>
      have htiers : (created.map f).loadTierConfig = created.loadTierConfig := rfl
      dsimp only
      rw [htiers]
      cases created.loadTierConfig with
      | nil => rfl
      | cons tier tiers =>
        dsimp only
        rw [← hf.single, apply_map hf, Option.map_map, Option.map_map]
        rfl

end UsageDb

section

variable {α β : Type} [Aggregate V α] [Aggregate V β] {f : α → β}

/-- **Calls do not look at aggregates.** -/
theorem UsageCall.execAll_map (hf : Aggregate.Hom f) (calls : List (UsageCall V)) (db : UsageDb α) :
    execAll (db.map f) calls = (execAll db calls).map (UsageDb.map f) := by
  induction calls generalizing db with
  | nil => rfl
  | cons call calls ih =>
    have hexec : call.exec (db.map f) = (call.exec db).map fun x => (x.1, x.2.map f) := by
      cases call with
      | record r => exact UsageDb.record_map hf db r
      | setTierConfig tierIdx stepSecs slots =>
        exact congrArg some (UsageDb.setTierConfig_map f db tierIdx stepSecs slots)
    rw [execAll, execAll, hexec]
    cases call.exec db with
    | none => rfl
    | some x => exact ih x.2

end

/-! ### What the rows gather -/

/-- The samples that a row has accumulated, the latest at the end. -/
structure Gathered where
  /-- The samples. -/
  samples : List UsageSample
  /-- There is one. -/
  nonempty : samples ≠ []

instance : Aggregate ℚ Gathered where
  single r := ⟨[r], List.cons_ne_nil r []⟩
  mergedWith g g' newer :=
    if newer then ⟨g.samples ++ g'.samples, List.append_ne_nil_of_left_ne_nil g.nonempty _⟩
    else ⟨g'.samples ++ g.samples, List.append_ne_nil_of_left_ne_nil g'.nonempty _⟩

/-- Their aggregate. -/
def Gathered.summary (g : Gathered) : SlotAgg := aggOf (g.samples.map UsageSample.value)

theorem mergedWith_false (agg agg' : SlotAgg) :
    agg.mergedWith agg' false = agg'.mergedWith agg true := by
  rw [SlotAgg.mergedWith, SlotAgg.mergedWith, add_comm agg.n, add_comm agg.sum, min_comm agg.min,
    max_comm agg.max]
  rfl

theorem hom_summary : Aggregate.Hom Gathered.summary where
  single r := aggOf_singleton r.value
  mergedWith g g' newer := by
    have hmerged : ∀ g g' : Gathered, aggOf ((g.samples ++ g'.samples).map UsageSample.value) =
        g.summary.mergedWith g'.summary true := fun g g' => by
      rw [List.map_append]
      exact aggOf_append (List.map_eq_nil_iff.not.2 g.nonempty) (List.map_eq_nil_iff.not.2 g'.nonempty)
    cases newer with
    | true => exact hmerged g g'
    | false => exact (hmerged g' g).trans (mergedWith_false g.summary g'.summary).symm

/-- **The rows are the aggregates of what they gather.** -/
theorem execAll_gathered (calls : List UsageCall) :
    UsageCall.execAll ({} : UsageDb SlotAgg) calls =
      (UsageCall.execAll ({} : UsageDb Gathered) calls).map (UsageDb.map Gathered.summary) :=
  UsageCall.execAll_map hom_summary calls {}

end Hub

end Wkp
