import Wkp.Lib.Checked
import Wkp.Lib.Str
import Wkp.Lib.Total
import Mathlib.Algebra.Group.Prod
import Mathlib.Algebra.Ring.Rat

/-!
# The usage store

Counters and gauges in rings of slots, one ring for each metric and tier.  The numbers are rationals
where nothing else is said; the store itself asks no more of them than to be added and compared.

* `Usage.apply` : a sample, or a window that closed, into the ring of a tier; a window that closes
  goes one tier up.
* `Usage.record` : one sample of a metric.
* `Usage.queryWindow` : what a metric has from the last seconds.
* `Usage.stored` : what the open windows and the coarsest tier hold.
-/

namespace Wkp

open Rust

namespace Usage

/-- One resolution: the seconds of a slot, and the number of slots. -/
structure Tier where
  /-- The table of its rings. -/
  table : Str
  /-- The seconds that a slot covers. -/
  stepSecs : ℤ
  /-- The number of slots. -/
  slots : ℤ
  deriving DecidableEq

/-- The tiers of the store, from the finest to the coarsest. -/
def tiers : List Tier :=
  [⟨"raw".toList, 60, 360⟩, ⟨"agg_15m".toList, 900, 1344⟩, ⟨"agg_6h".toList, 21600, 1460⟩]

/-- What a metric counts. -/
inductive MetricKind
  | counter | gauge
  deriving DecidableEq, Repr

/-- What a slot has accumulated. -/
structure SlotAgg (V : Type := ℚ) where
  /-- The number of samples. -/
  n : ℤ
  /-- Their sum. -/
  sum : V
  /-- The least of them. -/
  min : V
  /-- The greatest of them. -/
  max : V
  /-- The latest of them. -/
  last : V
  deriving DecidableEq

variable {V : Type}

/-- One sample. -/
def SlotAgg.single (v : V) : SlotAgg V := ⟨1, v, v, v, v⟩

/-- Both together; the latest is that of `incoming` when it is the newer one. -/
def SlotAgg.mergedWith [Add V] [Min V] [Max V] (self incoming : SlotAgg V) (incomingIsNewer : Bool) :
    SlotAgg V where
  n := self.n + incoming.n
  sum := self.sum + incoming.sum
  min := Min.min self.min incoming.min
  max := Max.max self.max incoming.max
  last := if incomingIsNewer then incoming.last else self.last

/-- The start of the step that a time is in. -/
def floorToStep (secs step : ℤ) : ℤ := secs / step * step

/-- The slot of a window. -/
def slotFor (bucketStart stepSecs slots : ℤ) : ℤ := bucketStart / stepSecs % slots

/-- A row of a ring. -/
structure Row (V : Type := ℚ) where
  /-- The start of the window that the slot holds. -/
  bucketStart : ℤ
  /-- What is in it. -/
  agg : SlotAgg V
  deriving DecidableEq

/-- Where the open window of a ring is. -/
structure Cursor where
  /-- Its slot. -/
  slot : ℤ
  /-- Its start. -/
  bucketStart : ℤ
  deriving DecidableEq

/-- The rows of a metric in the table of a tier, by slot, and its cursor there. -/
structure Ring (V : Type := ℚ) where
  /-- The rows. -/
  rows : AList fun _ : ℤ => Row V := ∅
  /-- The cursor, from the first event on. -/
  cursor : Option Cursor := none

namespace Ring

/-- Write a row. -/
def writeSlot (ring : Ring V) (slot bucketStart : ℤ) (agg : SlotAgg V) : Ring V :=
  { ring with rows := ring.rows.insert slot ⟨bucketStart, agg⟩ }

/-- Move the cursor. -/
def setCursor (ring : Ring V) (slot bucketStart : ℤ) : Ring V :=
  { ring with cursor := some ⟨slot, bucketStart⟩ }

/-- Open a window, whatever its slot held before. -/
def openWindow (ring : Ring V) (tier : Tier) (bucketStart : ℤ) (agg : SlotAgg V) : Ring V :=
  let slot := slotFor bucketStart tier.stepSecs tier.slots
  (ring.writeSlot slot bucketStart agg).setCursor slot bucketStart

end Ring

/-- How an event relates to the open window of a ring. -/
inductive Branch
  /-- There is none yet. -/
  | first
  /-- The event is in it. -/
  | same (cursor : Cursor)
  /-- The event came too late: a later window is open. -/
  | late (cursor : Cursor)
  /-- The window has closed. -/
  | closed (cursor : Cursor)

/-- The event came too late. -/
def Branch.isLate : Branch → Bool
  | late _ => true
  | _ => false

/-- The branch that an event takes. -/
def Ring.branch (ring : Ring V) (bucketStart : ℤ) : Branch :=
  match ring.cursor with
  | none => .first
  | some cursor =>
    if cursor.bucketStart = bucketStart then .same cursor
    else if bucketStart < cursor.bucketStart then .late cursor
    else .closed cursor

/-- Apply an event to the ring of the first of the tiers.  None is a panic: a cursor that points to
no row. -/
def apply [Add V] [Min V] [Max V] :
    List Tier → List (Ring V) → ℤ → SlotAgg V → Option (List (Ring V))
  | tier :: tiers, ring :: rings, bucketStart, incoming =>
    match ring.branch bucketStart with
    | .first => some (ring.openWindow tier bucketStart incoming :: rings)
    | .same cursor => do
      let existing ← ring.rows.lookup cursor.slot
      return ring.writeSlot cursor.slot bucketStart (existing.agg.mergedWith incoming true) :: rings
    | .late cursor => do
      let existing ← ring.rows.lookup cursor.slot
      return ring.writeSlot cursor.slot cursor.bucketStart
        (existing.agg.mergedWith incoming false) :: rings
    | .closed cursor => do
      let existing ← ring.rows.lookup cursor.slot
      let rings ← match tiers with
        | [] => some rings
        | next :: _ =>
          apply tiers rings (floorToStep cursor.bucketStart next.stepSecs) existing.agg
      return ring.openWindow tier bucketStart incoming :: rings
  | _, _, _, _ => none

/-- The tiers that `apply` comes to, with the branches that it takes there. -/
def visited : List Tier → List (Ring V) → ℤ → List (Tier × Branch)
  | tier :: tiers, ring :: rings, bucketStart =>
    (tier, ring.branch bucketStart) :: match ring.branch bucketStart, tiers with
      | .closed cursor, next :: _ =>
        visited tiers rings (floorToStep cursor.bucketStart next.stepSecs)
      | _, _ => []
  | _, _, _ => []

/-! ### Recording -/

/-- A metric: its kind, and its rings. -/
structure Metric (V : Type := ℚ) where
  /-- The kind that it was first recorded as. -/
  kind : MetricKind
  /-- A ring for each tier. -/
  rings : List (Ring V)

/-- The metrics by name.  The number that joins their rows in the tables is left out. -/
abbrev Store (V : Type := ℚ) := AList fun _ : Str => Metric V

/-- What can be wrong with a sample. -/
inductive UsageError
  | time
  | metricKindMismatch (name : Str) (requested stored : MetricKind)
  deriving DecidableEq

/-- A sample. -/
structure Sample (V : Type := ℚ) where
  /-- The name of its metric. -/
  name : Str
  /-- The kind. -/
  kind : MetricKind
  /-- The value. -/
  value : V
  /-- The time, in nanoseconds since the epoch. -/
  nanos : ℤ
  deriving DecidableEq

/-- The time of a sample in whole seconds. -/
def Sample.secs (s : Sample V) : ℤ := s.nanos / 1000000000

/-- The metric of a name, a new one with empty rings if there is none. -/
def getOrCreateMetric (ts : List Tier) (store : Store V) (name : Str) (kind : MetricKind) :
    Except UsageError (Metric V) :=
  match store.lookup name with
  | some metric =>
    if metric.kind ≠ kind then .error (.metricKindMismatch name kind metric.kind) else .ok metric
  | none => .ok ⟨kind, ts.map fun _ => {}⟩

/-- Record a sample.  None is a panic. -/
def record [Add V] [Min V] [Max V] (ts : List Tier) (store : Store V) (s : Sample V) :
    Option (Except UsageError (Store V)) :=
  if s.nanos < 0 then some (.error .time)
  else match getOrCreateMetric ts store s.name s.kind with
    | .error e => some (.error e)
    | .ok metric =>
      let step := (ts.head?.map Tier.stepSecs).getD 0
      (apply ts metric.rings (floorToStep s.secs step) (.single s.value)).map fun rings =>
        .ok (store.insert s.name { metric with rings := rings })

/-- Record a sequence of samples.  One that is refused changes nothing. -/
def recordAll [Add V] [Min V] [Max V] (ts : List Tier) : Store V → List (Sample V) → Option (Store V)
  | store, [] => some store
  | store, s :: ss => match record ts store s with
    | none => none
    | some (.error _) => recordAll ts store ss
    | some (.ok store) => recordAll ts store ss

/-- The samples of a sequence that are not refused. -/
def recorded [Add V] [Min V] [Max V] (ts : List Tier) : Store V → List (Sample V) → List (Sample V)
  | _, [] => []
  | store, s :: ss => match record ts store s with
    | none => []
    | some (.error _) => recorded ts store ss
    | some (.ok store) => s :: recorded ts store ss

/-! ### Queries -/

/-- What a metric has in a window. -/
structure MetricSummary (V : Type := ℚ) where
  /-- The number of samples. -/
  n : ℤ
  /-- Their sum. -/
  sum : V
  /-- The least of them. -/
  min : V
  /-- The greatest of them. -/
  max : V
  /-- The latest of them. -/
  last : V
  /-- The start of the bucket that has the latest. -/
  lastAt : Option ℤ
  deriving DecidableEq

/-- `MetricSummary::empty`. -/
def MetricSummary.empty [Zero V] : MetricSummary V := ⟨0, 0, 0, 0, 0, none⟩

/-- `pick_tier_idx`: the finest tier whose span covers the window, or else the coarsest. -/
def pickTierIdx (ts : List Tier) (windowSecs : ℤ) : ℕ :=
  (ts.findIdx? fun t => windowSecs ≤ t.stepSecs * t.slots).getD (ts.length - 1)

/-- What a query has absorbed. -/
structure WindowAcc (V : Type := ℚ) [Zero V] where
  /-- The number of samples. -/
  n : ℤ := 0
  /-- Their sum. -/
  sum : V := 0
  /-- The least of them. -/
  min : Option V := none
  /-- The greatest of them. -/
  max : Option V := none
  /-- The latest of them. -/
  last : V := 0
  /-- The start of the bucket that has the latest. -/
  lastAt : Option ℤ := none

/-- `absorb`. -/
def WindowAcc.absorb [Zero V] [Add V] [Min V] [Max V] (acc : WindowAcc V) (bucketStart : ℤ)
    (agg : SlotAgg V) : WindowAcc V :=
  let newer := acc.lastAt.all (· < bucketStart)
  { n := acc.n + agg.n
    sum := acc.sum + agg.sum
    min := some (acc.min.elim agg.min (Min.min · agg.min))
    max := some (acc.max.elim agg.max (Max.max · agg.max))
    last := if newer then agg.last else acc.last
    lastAt := if newer then some bucketStart else acc.lastAt }

/-- `into_summary`. -/
def WindowAcc.intoSummary [Zero V] (acc : WindowAcc V) : MetricSummary V :=
  ⟨acc.n, acc.sum, acc.min.getD 0, acc.max.getD 0, acc.last, acc.lastAt⟩

/-- An unsigned number of 64 bits as a signed one. -/
def asI64 (n : ℕ) : ℤ := Int.bmod n (2 ^ 64)

/-- `now - window` in 64 bits.  Of two numbers that are not negative the difference never overflows. -/
def cutoffOf (nowSecs windowSecs : ℤ) : ℤ :=
  if 0 ≤ nowSecs ∧ 0 ≤ windowSecs then nowSecs - windowSecs else wrapI64 (nowSecs - windowSecs)

theorem cutoffOf_eq {nowSecs windowSecs : ℤ} (hnow : 0 ≤ nowSecs) (hwindow : 0 ≤ windowSecs) :
    cutoffOf nowSecs windowSecs = nowSecs - windowSecs := if_pos ⟨hnow, hwindow⟩

/-- The rows of a ring that are not older than the cutoff. -/
def Ring.live (ring : Ring V) (cutoff : ℤ) : List (Row V) :=
  (ring.rows.entries.map Sigma.snd).filter fun row => cutoff ≤ row.bucketStart

/-- The open window of a ring, unless it is older than the cutoff. -/
def Ring.liveOpen (ring : Ring V) (cutoff : ℤ) : Option (Row V) := do
  let cursor ← ring.cursor
  if cutoff ≤ cursor.bucketStart then
    let row ← ring.rows.lookup cursor.slot
    return ⟨cursor.bucketStart, row.agg⟩
  else none

/-- The rows that a query absorbs, in order: those of the tier that it picks, and the open windows
of the finer ones. -/
def liveRows (picked : ℕ) (rings : List (Ring V)) (cutoff : ℤ) : List (Row V) :=
  (rings.getD picked {}).live cutoff ++ (rings.take picked).filterMap (Ring.liveOpen · cutoff)

/-- `query_window`, for a window of whole seconds. -/
def queryWindow [Zero V] [Add V] [Min V] [Max V] (ts : List Tier) (store : Store V) (name : Str)
    (window : ℕ) (nanos : ℤ) : Except UsageError (MetricSummary V) :=
  match store.lookup name with
  | none => .ok .empty
  | some metric =>
    if nanos < 0 then .error .time
    else
      let windowSecs := asI64 window
      let cutoff := cutoffOf (nanos / 1000000000) windowSecs
      let acc := (liveRows (pickTierIdx ts windowSecs) metric.rings cutoff).foldl
        (fun (acc : WindowAcc V) row => acc.absorb row.bucketStart row.agg) {}
      .ok acc.intoSummary

/-! ### What is stored -/

/-- The number and the sum of the samples in an aggregate. -/
def counted (agg : SlotAgg) : ℤ × ℚ := (agg.n, agg.sum)

/-- What is in the row under the cursor. -/
def Ring.openCount (ring : Ring) : ℤ × ℚ :=
  match ring.cursor.bind fun cursor => ring.rows.lookup cursor.slot with
  | none => 0
  | some row => counted row.agg

/-- What is in all rows. -/
def Ring.allCount (ring : Ring) : ℤ × ℚ := Total.total (fun e => counted e.2.agg) ring.rows

/-- What the open windows hold, and all rows of the last ring. -/
def stored : List Ring → ℤ × ℚ
  | [] => 0
  | [ring] => ring.allCount
  | ring :: rings => ring.openCount + stored rings

end Usage

end Wkp
