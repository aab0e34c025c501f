import Wkp.Hub.UsageI64

/-!
# The usage rings when tiers are reconfigured

* `Hub.UsageDb.Consistent` : every cursor has its row, and every sample is in the bucket of its row.
* `Hub.UsageDb.Sound` : what calls in the order of time always keep: cursors have their rows, no sample is
  before its bucket, and no coarser cursor is ahead of what the finer tiers have open.
* `Hub.UsageDb.Fits` : the samples of the buckets that close come before the end of the coarser bucket.
* `Hub.UsageDb.apply_spec` : **`apply` keeps the tables consistent just if these samples do.**
* `Hub.consistent_iff` : **so do calls in the order of time.**
* `Hub.consistent_of_nested` : **it does not happen while steps divide the coarser ones.**
-/

namespace Wkp

open Rust Usage

namespace Hub

namespace UsageDb

/-! ### What is claimed of the tables -/

/-- Every cursor has a row of its start, and every sample is in the bucket of its row. -/
structure Consistent (db : UsageDb Gathered) : Prop where
  /-- The rows of the cursors. -/
  cursor : ∀ key cursor, db.cursors.lookup key = some cursor →
    ∃ row, db.ring.lookup ⟨key, cursor.slot⟩ = some row ∧ row.bucketStart = cursor.bucketStart
  /-- The samples of the rows. -/
  sample : ∀ key row, db.ring.lookup key = some row →
    ∃ tier, db.config.lookup key.tierIdx = some tier ∧
      ∀ r ∈ row.agg.samples, row.bucketStart ≤ r.secs ∧ r.secs < row.bucketStart + tier.stepSecs

/-- The start of the row that an event goes into: its own, or that of the open window if it is later. -/
def target (db : UsageDb Gathered) (key : CursorKey) (bucketStart : ℤ) : ℤ :=
  ((db.cursors.lookup key).map fun cursor => max bucketStart cursor.bucketStart).getD bucketStart

/-- Every sample of a bucket that closes comes before the end of the coarser bucket that it goes
into. -/
def Fits (db : UsageDb Gathered) (tenantId metricId : ℕ) : List TierConfig → ℕ → ℤ → Prop
  | _ :: next :: tiers, i, bucketStart =>
    ∀ cursor row, db.cursors.lookup ⟨tenantId, metricId, i⟩ = some cursor →
      cursor.bucketStart < bucketStart →
      db.ring.lookup ⟨⟨tenantId, metricId, i⟩, cursor.slot⟩ = some row →
      (∀ r ∈ row.agg.samples, r.secs < db.target ⟨tenantId, metricId, i + 1⟩
        (floorToStep cursor.bucketStart next.stepSecs) + next.stepSecs) ∧
      db.Fits tenantId metricId (next :: tiers) (i + 1)
        (floorToStep cursor.bucketStart next.stepSecs)
  | _, _, _ => True

/-! ### What holds anyway -/

/-- What calls keep that come in the order of time, up to `now`. -/
structure Sound (now : ℤ) (db : UsageDb Gathered) : Prop where
  /-- The tiers are there, with positive steps. -/
  config : ∀ i < 3, ∃ tier, db.config.lookup i = some tier ∧ 0 < tier.stepSecs
  /-- The rows of the cursors. -/
  cursor : ∀ key cursor, db.cursors.lookup key = some cursor →
    ∃ row, db.ring.lookup ⟨key, cursor.slot⟩ = some row ∧ row.bucketStart = cursor.bucketStart
  /-- Buckets start at a step of their tier. -/
  aligned : ∀ key row tier, db.ring.lookup key = some row →
    db.config.lookup key.tierIdx = some tier → tier.stepSecs ∣ row.bucketStart
  /-- No sample is before its bucket. -/
  lower : ∀ key row, db.ring.lookup key = some row →
    ∀ r ∈ row.agg.samples, row.bucketStart ≤ r.secs
  /-- No coarser cursor is ahead of what a finer tier has open. -/
  order : ∀ tenantId metricId i j cursor row cursor', i < j →
    db.cursors.lookup ⟨tenantId, metricId, i⟩ = some cursor →
    db.ring.lookup ⟨⟨tenantId, metricId, i⟩, cursor.slot⟩ = some row →
    db.cursors.lookup ⟨tenantId, metricId, j⟩ = some cursor' →
    ∀ r ∈ row.agg.samples, cursor'.bucketStart ≤ r.secs
  /-- No cursor is ahead of the time. -/
  now : ∀ key cursor, db.cursors.lookup key = some cursor → cursor.bucketStart ≤ now

/-- No sample is after its bucket. -/
def Upper (db : UsageDb Gathered) : Prop :=
  ∀ key row, db.ring.lookup key = some row → ∃ tier, db.config.lookup key.tierIdx = some tier ∧
    ∀ r ∈ row.agg.samples, r.secs < row.bucketStart + tier.stepSecs

theorem Sound.consistent_iff_upper {now : ℤ} {db : UsageDb Gathered} (h : db.Sound now) :
    db.Consistent ↔ db.Upper := by
  constructor
  · intro hc key row hrow
    obtain ⟨tier, htier, hall⟩ := hc.sample key row hrow
    exact ⟨tier, htier, fun r hr => (hall r hr).2⟩
  · refine fun hu => ⟨h.cursor, fun key row hrow => ?_⟩
    obtain ⟨tier, htier, hall⟩ := hu key row hrow
    exact ⟨tier, htier, fun r hr => ⟨h.lower key row hrow r hr, hall r hr⟩⟩

theorem Sound.mono {now now' : ℤ} {db : UsageDb Gathered} (h : db.Sound now) (hle : now ≤ now') :
    db.Sound now' :=
  { h with now := fun key cursor hc => (h.now key cursor hc).trans hle }

/-- A row is written, and the cursor of its tier is there. -/
structure Placed (db db' : UsageDb Gathered) (key : CursorKey) (slot : ℤ) (row : UsageRow Gathered) :
    Prop where
  /-- The rows. -/
  ring : ∀ key', db'.ring.lookup key' =
    if key' = ⟨key, slot⟩ then some row else db.ring.lookup key'
  /-- The cursors. -/
  cursors : ∀ key', db'.cursors.lookup key' =
    if key' = key then some ⟨slot, row.bucketStart⟩ else db.cursors.lookup key'
  /-- The tiers stay. -/
  config : db'.config = db.config

theorem lookup_writeSlot (db : UsageDb Gathered) (key : CursorKey) (slot bucketStart : ℤ)
    (agg : Gathered) (key' : RingKey) : (db.writeSlot key slot bucketStart agg).ring.lookup key' =
      if key' = ⟨key, slot⟩ then some ⟨bucketStart, agg⟩ else db.ring.lookup key' := by
  split_ifs with h
  · rw [h, writeSlot, AList.lookup_insert]
  · rw [writeSlot, AList.lookup_insert_ne h]

theorem le_target (db : UsageDb Gathered) (key : CursorKey) (bucketStart : ℤ) :
    bucketStart ≤ db.target key bucketStart := by
  rw [target]
  cases db.cursors.lookup key with
  | none => exact le_rfl
  | some cursor => exact le_max_left _ _

theorem placed_openWindow (db : UsageDb Gathered) (tier : TierConfig) (key : CursorKey)
    (bucketStart : ℤ) (agg : Gathered) : Placed db (db.openWindow tier key bucketStart agg) key
      (slotFor bucketStart tier.stepSecs tier.slots) ⟨bucketStart, agg⟩ where
  ring := db.lookup_writeSlot key _ bucketStart agg
  cursors key' := by
    split_ifs with h
    · rw [h, openWindow, setCursor, AList.lookup_insert]
    · rw [openWindow, setCursor, AList.lookup_insert_ne h]
      rfl
  config := rfl

theorem placed_writeSlot {db : UsageDb Gathered} {key : CursorKey} {cursor : Cursor}
    (hc : db.cursors.lookup key = some cursor) (agg : Gathered) :
    Placed db (db.writeSlot key cursor.slot cursor.bucketStart agg) key cursor.slot
      ⟨cursor.bucketStart, agg⟩ where
  ring := db.lookup_writeSlot key _ cursor.bucketStart agg
  cursors key' := by
    split_ifs with h
    · rw [h]
      exact hc
    · rfl
  config := rfl

section

variable {db db' : UsageDb Gathered} {tenantId metricId i : ℕ} {slot : ℤ} {row : UsageRow Gathered}

/-- A row that is written keeps what holds anyway. -/
theorem Sound.placed {now : ℤ} (h : db.Sound now)
    (hp : Placed db db' ⟨tenantId, metricId, i⟩ slot row)
    (haligned : ∀ tier, db.config.lookup i = some tier → tier.stepSecs ∣ row.bucketStart)
    (hlower : ∀ r ∈ row.agg.samples, row.bucketStart ≤ r.secs)
    (hcoarser : ∀ j cursor, i < j → db.cursors.lookup ⟨tenantId, metricId, j⟩ = some cursor →
      ∀ r ∈ row.agg.samples, cursor.bucketStart ≤ r.secs)
    (hfiner : ∀ j cursor row', j < i → db.cursors.lookup ⟨tenantId, metricId, j⟩ = some cursor →
      db.ring.lookup ⟨⟨tenantId, metricId, j⟩, cursor.slot⟩ = some row' →
      ∀ r ∈ row'.agg.samples, row.bucketStart ≤ r.secs)
    (hnow : row.bucketStart ≤ now) : db'.Sound now where
  config := by
    rw [hp.config]
    exact h.config
  cursor key cursor hc := by
    rw [hp.cursors] at hc
    rw [hp.ring]
    split_ifs at hc with hkey
    · obtain rfl := Option.some.inj hc
      exact ⟨row, if_pos (by rw [hkey]), rfl⟩
    · rw [if_neg fun heq => hkey (congrArg RingKey.toCursorKey heq)]
      exact h.cursor key cursor hc
  aligned key row' tier hrow htier := by
    rw [hp.ring] at hrow
    rw [hp.config] at htier
    split_ifs at hrow with hkey
    · obtain rfl := Option.some.inj hrow
      rw [hkey] at htier
      exact haligned tier htier
    · exact h.aligned key row' tier hrow htier
  lower key row' hrow := by
    rw [hp.ring] at hrow
    split_ifs at hrow with hkey
    · obtain rfl := Option.some.inj hrow
      exact hlower
    · exact h.lower key row' hrow
  order t m j k cursor row' cursor' hjk hc hrow hc' := by
    rw [hp.cursors] at hc hc'
    rw [hp.ring] at hrow
    by_cases hj : (⟨t, m, j⟩ : CursorKey) = ⟨tenantId, metricId, i⟩
    · -- the row that is written, under a coarser cursor
      obtain ⟨rfl, rfl, rfl⟩ := CursorKey.mk.inj hj
      rw [if_pos rfl] at hc
      obtain rfl := Option.some.inj hc
      rw [if_pos rfl] at hrow
      obtain rfl := Option.some.inj hrow
      rw [if_neg fun heq => hjk.ne' (CursorKey.mk.inj heq).2.2] at hc'
      exact hcoarser k cursor' hjk hc'
    · rw [if_neg hj] at hc
      rw [if_neg fun heq => hj (congrArg RingKey.toCursorKey heq)] at hrow
      by_cases hk : (⟨t, m, k⟩ : CursorKey) = ⟨tenantId, metricId, i⟩
      · -- a finer row, under the cursor that is written
        obtain ⟨rfl, rfl, rfl⟩ := CursorKey.mk.inj hk
        rw [if_pos rfl] at hc'
        obtain rfl := Option.some.inj hc'
        exact hfiner j cursor row' hjk hc hrow
      · rw [if_neg hk] at hc'
        exact h.order t m j k cursor row' cursor' hjk hc hrow hc'
  now key cursor hc := by
    rw [hp.cursors] at hc
    split_ifs at hc with hkey
    · obtain rfl := Option.some.inj hc
      exact hnow
    · exact h.now key cursor hc

/-- A row that is written keeps every sample before the end of its bucket just if its own samples
are. -/
theorem upper_placed (hp : Placed db db' ⟨tenantId, metricId, i⟩ slot row) {tier : TierConfig}
    (htier : db.config.lookup i = some tier)
    (hold : ∀ row', db.ring.lookup ⟨⟨tenantId, metricId, i⟩, slot⟩ = some row' →
      ∀ r ∈ row'.agg.samples, r.secs < row'.bucketStart + tier.stepSecs) :
    db'.Upper ↔ db.Upper ∧ ∀ r ∈ row.agg.samples, r.secs < row.bucketStart + tier.stepSecs := by
  constructor
  · refine fun h => ⟨fun key row' hrow => ?_, ?_⟩
    · by_cases hkey : key = ⟨⟨tenantId, metricId, i⟩, slot⟩
      · subst hkey
        exact ⟨tier, htier, hold row' hrow⟩
      · rw [← hp.config]
        exact h key row' ((hp.ring key).trans ((if_neg hkey).trans hrow))
    · obtain ⟨tier', htier', hall⟩ := h ⟨⟨tenantId, metricId, i⟩, slot⟩ row
        ((hp.ring _).trans (if_pos rfl))
      rw [hp.config, htier] at htier'
      obtain rfl := Option.some.inj htier'
      exact hall
  · rintro ⟨h, hrow⟩ key row' hlookup
    rw [hp.ring] at hlookup
    rw [hp.config]
    split_ifs at hlookup with hkey
    · obtain rfl := Option.some.inj hlookup
      rw [hkey]
      exact ⟨tier, htier, hrow⟩
    · exact h key row' hlookup

end

/-! ### Applying -/

/-- The tiers from the one with index `i` on, as they are configured. -/
def Geometry (db : UsageDb Gathered) (tiers : List TierConfig) (i : ℕ) : Prop :=
  ∀ k tier, tiers[k]? = some tier → db.config.lookup (i + k) = some tier

/-- What an event brings: it is not ahead of its samples, nor are the cursors of its tier and the coarser
ones, nor is it ahead of what finer tiers have open. -/
structure Event (now : ℤ) (db : UsageDb Gathered) (tenantId metricId i : ℕ) (bucketStart : ℤ)
    (incoming : Gathered) : Prop where
  /-- The bucket starts at a step of the tier. -/
  aligned : ∀ tier, db.config.lookup i = some tier → tier.stepSecs ∣ bucketStart
  /-- The samples are in the bucket or later. -/
  lower : ∀ r ∈ incoming.samples, bucketStart ≤ r.secs
  /-- The cursors of its tier and the coarser ones. -/
  coarser : ∀ j cursor, i ≤ j → db.cursors.lookup ⟨tenantId, metricId, j⟩ = some cursor →
    ∀ r ∈ incoming.samples, cursor.bucketStart ≤ r.secs
  /-- What finer tiers have open. -/
  finer : ∀ j cursor row, j < i → db.cursors.lookup ⟨tenantId, metricId, j⟩ = some cursor →
    db.ring.lookup ⟨⟨tenantId, metricId, j⟩, cursor.slot⟩ = some row →
    ∀ r ∈ row.agg.samples, bucketStart ≤ r.secs
  /-- The time has come. -/
  now : bucketStart ≤ now

/-- What `apply` does: the finer tiers stay, and no cursor gets ahead of both the event and the old
cursors. -/
structure Applied (db db' : UsageDb Gathered) (tenantId metricId i : ℕ) (bucketStart : ℤ) : Prop where
  /-- The tiers stay as they are configured. -/
  config : db'.config = db.config
  /-- The rows of the finer tiers. -/
  ring : ∀ key, key.toCursorKey.tierIdx < i → db'.ring.lookup key = db.ring.lookup key
  /-- The cursors of the finer tiers. -/
  cursors : ∀ key, key.tierIdx < i → db'.cursors.lookup key = db.cursors.lookup key
  /-- The cursors of the others. -/
  le : ∀ limit, bucketStart ≤ limit →
    (∀ j cursor, i ≤ j → db.cursors.lookup ⟨tenantId, metricId, j⟩ = some cursor →
      cursor.bucketStart ≤ limit) →
    ∀ j cursor, i ≤ j → db'.cursors.lookup ⟨tenantId, metricId, j⟩ = some cursor →
      cursor.bucketStart ≤ limit

theorem lt_floorToStep_add {step : ℤ} (h : 0 < step) (secs : ℤ) :
    secs < floorToStep secs step + step := by
  rw [floorToStep, ← add_one_mul]
  exact Int.lt_ediv_add_one_mul_self secs h

theorem mem_mergedWith (g g' : Gathered) (newer : Bool) {r : UsageSample} :
    r ∈ (Aggregate.mergedWith g g' newer : Gathered).samples ↔ r ∈ g.samples ∨ r ∈ g'.samples := by
  cases newer with
  | true => exact List.mem_append
  | false => exact List.mem_append.trans or_comm

section

variable {db db₁ db' : UsageDb Gathered} {tenantId metricId i : ℕ} {bucketStart now : ℤ}
  {incoming : Gathered}

theorem Applied.refl (db : UsageDb Gathered) (tenantId metricId i : ℕ) (bucketStart : ℤ) :
    Applied db db tenantId metricId i bucketStart where
  config := rfl
  ring _ _ := rfl
  cursors _ _ := rfl
  le _ _ h := h

theorem Applied.placed {bucketStart₁ slot : ℤ} {row : UsageRow Gathered}
    (h : Applied db db₁ tenantId metricId (i + 1) bucketStart₁) (hle : bucketStart₁ ≤ bucketStart)
    (hp : Placed db₁ db' ⟨tenantId, metricId, i⟩ slot row)
    (hrow : row.bucketStart = db.target ⟨tenantId, metricId, i⟩ bucketStart) :
    Applied db db' tenantId metricId i bucketStart where
  config := hp.config.trans h.config
  ring key hkey := by
    rw [hp.ring, if_neg, h.ring key (Nat.lt_succ_of_lt hkey)]
    rintro rfl
    exact lt_irrefl i hkey
  cursors key hkey := by
    rw [hp.cursors, if_neg, h.cursors key (Nat.lt_succ_of_lt hkey)]
    rintro rfl
    exact lt_irrefl i hkey
  le limit hlimit hold j cursor hj hc := by
    rw [hp.cursors] at hc
    split_ifs at hc with hkey
    · obtain rfl := Option.some.inj hc
      rw [hrow, target]
      cases hc' : db.cursors.lookup ⟨tenantId, metricId, i⟩ with
      | none => exact hlimit
      | some cursor' => exact max_le hlimit (hold i cursor' le_rfl hc')
    · have hij : i + 1 ≤ j := Nat.lt_of_le_of_ne hj fun heq => hkey (by rw [heq])
      exact h.le limit (hle.trans hlimit) (fun j cursor hj => hold j cursor (Nat.le_of_succ_le hj))
        j cursor hij hc

theorem merge_spec (h : db.Sound now) (hev : Event now db tenantId metricId i bucketStart incoming)
    {tier : TierConfig} (htier : db.config.lookup i = some tier) {cursor : Cursor}
    (hc : db.cursors.lookup ⟨tenantId, metricId, i⟩ = some cursor) {row : UsageRow Gathered}
    (hrow : db.ring.lookup ⟨⟨tenantId, metricId, i⟩, cursor.slot⟩ = some row)
    (hstart : row.bucketStart = cursor.bucketStart) (hle : bucketStart ≤ cursor.bucketStart)
    (newer : Bool) {db' : UsageDb Gathered}
    (hdb' : db' = db.writeSlot ⟨tenantId, metricId, i⟩ cursor.slot cursor.bucketStart
      (Aggregate.mergedWith row.agg incoming newer)) :
    db'.Sound now ∧ Applied db db' tenantId metricId i bucketStart ∧
      (db.Upper → (db'.Upper ↔ ∀ r ∈ incoming.samples,
        r.secs < db.target ⟨tenantId, metricId, i⟩ bucketStart + tier.stepSecs)) := by
  have hp := placed_writeSlot hc (Aggregate.mergedWith row.agg incoming newer)
  rw [← hdb'] at hp
  have htarget : db.target ⟨tenantId, metricId, i⟩ bucketStart = cursor.bucketStart := by
    rw [target, hc]
    exact max_eq_right hle
  -- the row keeps its start; its samples are those it had and those of the event
  refine ⟨h.placed hp ?_ ?_ ?_ ?_ (h.now _ cursor hc),
    (Applied.refl db tenantId metricId (i + 1) bucketStart).placed le_rfl hp htarget.symm, ?_⟩
  · rw [← hstart]
    exact fun tier htier => h.aligned _ row tier hrow htier
  · intro r hr
    rcases (mem_mergedWith _ _ _).1 hr with hr | hr
    · rw [← hstart]
      exact h.lower _ row hrow r hr
    · exact hev.coarser i cursor le_rfl hc r hr
  · intro j cursor' hij hc' r hr
    rcases (mem_mergedWith _ _ _).1 hr with hr | hr
    · exact h.order _ _ i j cursor row cursor' hij hc hrow hc' r hr
    · exact hev.coarser j cursor' hij.le hc' r hr
  · intro j cursor' row' hji hc' hrow'
    exact h.order _ _ j i cursor' row' cursor hji hc' hrow' hc
  · intro hu
    have hold : ∀ row', db.ring.lookup ⟨⟨tenantId, metricId, i⟩, cursor.slot⟩ = some row' →
        ∀ r ∈ row'.agg.samples, r.secs < row'.bucketStart + tier.stepSecs := by
      intro row' hrow'
      obtain ⟨tier', htier', hall⟩ := hu _ row' hrow'
      obtain rfl := Option.some.inj (htier.symm.trans htier')
      exact hall
    rw [upper_placed hp htier hold, htarget, and_iff_right hu]
    constructor
    · exact fun hall r hr => hall r ((mem_mergedWith _ _ _).2 (.inr hr))
    · intro hall r hr
      rcases (mem_mergedWith _ _ _).1 hr with hr | hr
      · rw [← hstart]
        exact hold row hrow r hr
      · exact hall r hr

theorem openWindow_spec (hev : Event now db tenantId metricId i bucketStart incoming)
    {tier : TierConfig} (htier : db.config.lookup i = some tier)
    (htarget : db.target ⟨tenantId, metricId, i⟩ bucketStart = bucketStart) {bucketStart₁ : ℤ}
    (hle : bucketStart₁ ≤ bucketStart) (h₁ : db₁.Sound now)
    (happlied : Applied db db₁ tenantId metricId (i + 1) bucketStart₁) {db' : UsageDb Gathered}
    (hdb' : db' = db₁.openWindow tier ⟨tenantId, metricId, i⟩ bucketStart incoming) :
    db'.Sound now ∧ Applied db db' tenantId metricId i bucketStart ∧
      (db.Upper → (db'.Upper ↔ (∀ r ∈ incoming.samples,
        r.secs < db.target ⟨tenantId, metricId, i⟩ bucketStart + tier.stepSecs) ∧ db₁.Upper)) := by
  have hp := placed_openWindow db₁ tier ⟨tenantId, metricId, i⟩ bucketStart incoming
  rw [← hdb'] at hp
  refine ⟨h₁.placed hp ?_ hev.lower ?_ ?_ hev.now, happlied.placed hle hp htarget.symm, ?_⟩
  · rw [happlied.config]
    exact hev.aligned
  · intro j cursor hij hc r hr
    exact happlied.le r.secs (hle.trans (hev.lower r hr))
      (fun k cursor hk hc => hev.coarser k cursor (Nat.le_of_succ_le hk) hc r hr) j cursor hij hc
  · intro j cursor row hji hc hrow
    rw [happlied.cursors _ (Nat.lt_succ_of_lt hji)] at hc
    rw [happlied.ring _ (Nat.lt_succ_of_lt hji)] at hrow
    exact hev.finer j cursor row hji hc hrow
  · intro hu
    have htier₁ : db₁.config.lookup i = some tier := by
      rw [happlied.config]
      exact htier
    rw [upper_placed hp htier₁, and_comm, htarget]
    intro row hrow
    rw [happlied.ring _ (Nat.lt_succ_self i)] at hrow
    obtain ⟨tier', htier', hall⟩ := hu _ row hrow
    obtain rfl := Option.some.inj (htier.symm.trans htier')
    exact hall

theorem fits_of_open {tiers : List TierConfig} (h : ∀ cursor,
    db.cursors.lookup ⟨tenantId, metricId, i⟩ = some cursor → bucketStart ≤ cursor.bucketStart) :
    db.Fits tenantId metricId tiers i bucketStart := by
  unfold Fits
  split
  · exact fun cursor _ hc hlt => absurd (h cursor hc) (not_le.2 hlt)
  · trivial

theorem fits_of_closed {tier next : TierConfig} {tiers : List TierConfig} {cursor : Cursor}
    (hc : db.cursors.lookup ⟨tenantId, metricId, i⟩ = some cursor)
    (hlt : cursor.bucketStart < bucketStart) {row : UsageRow Gathered}
    (hrow : db.ring.lookup ⟨⟨tenantId, metricId, i⟩, cursor.slot⟩ = some row) :
    db.Fits tenantId metricId (tier :: next :: tiers) i bucketStart ↔
      (∀ r ∈ row.agg.samples, r.secs < db.target ⟨tenantId, metricId, i + 1⟩
        (floorToStep cursor.bucketStart next.stepSecs) + next.stepSecs) ∧
      db.Fits tenantId metricId (next :: tiers) (i + 1)
        (floorToStep cursor.bucketStart next.stepSecs) := by
  rw [Fits]
  constructor
  · exact fun h => h cursor row hc hlt hrow
  · intro h cursor' row' hc' _ hrow'
    obtain rfl := Option.some.inj (hc.symm.trans hc')
    obtain rfl := Option.some.inj (hrow.symm.trans hrow')
    exact h

theorem Geometry.tail {tier : TierConfig} {tiers : List TierConfig}
    (h : db.Geometry (tier :: tiers) i) : db.Geometry tiers (i + 1) := fun k tier' hk => by
  rw [Nat.add_right_comm]
  exact h (k + 1) tier' hk

theorem Event.of_closed (h : db.Sound now) {cursor : Cursor}
    (hc : db.cursors.lookup ⟨tenantId, metricId, i⟩ = some cursor) {row : UsageRow Gathered}
    (hrow : db.ring.lookup ⟨⟨tenantId, metricId, i⟩, cursor.slot⟩ = some row)
    (hstart : row.bucketStart = cursor.bucketStart) {next : TierConfig}
    (hnext : db.config.lookup (i + 1) = some next) (hpos : 0 < next.stepSecs) :
    Event now db tenantId metricId (i + 1) (floorToStep cursor.bucketStart next.stepSecs)
      row.agg where
  aligned tier htier := by
    obtain rfl := Option.some.inj (hnext.symm.trans htier)
    exact Int.dvd_mul_left _ _
  lower r hr := ((floorToStep_le hpos _).trans_eq hstart.symm).trans (h.lower _ row hrow r hr)
  coarser j cursor' hj hc' := h.order _ _ i j cursor row cursor' hj hc hrow hc'
  finer j cursor' row' hj hc' hrow' r hr := by
    refine (floorToStep_le hpos _).trans ?_
    rcases Nat.lt_succ_iff_lt_or_eq.1 hj with hj | rfl
    · exact h.order _ _ j i cursor' row' cursor hj hc' hrow' hc r hr
    · obtain rfl := Option.some.inj (hc.symm.trans hc')
      obtain rfl := Option.some.inj (hrow.symm.trans hrow')
      exact hstart ▸ h.lower _ row hrow r hr
  now := (floorToStep_le hpos _).trans (h.now _ cursor hc)

/-- `apply` at one tier, when the coarser ones take a window that closes. -/
theorem apply_spec_of_foldUp (h : db.Sound now) {tier : TierConfig} {tiers : List TierConfig}
    (htier : db.config.lookup i = some tier)
    (hev : Event now db tenantId metricId i bucketStart incoming)
    (hfold : ∀ cursor row, db.cursors.lookup ⟨tenantId, metricId, i⟩ = some cursor →
      db.ring.lookup ⟨⟨tenantId, metricId, i⟩, cursor.slot⟩ = some row →
      row.bucketStart = cursor.bucketStart → cursor.bucketStart < bucketStart → ∃ db₁ bucketStart₁,
        db.foldUp tenantId metricId tiers (i + 1) cursor.bucketStart row.agg = some db₁ ∧
        bucketStart₁ ≤ cursor.bucketStart ∧ db₁.Sound now ∧
        Applied db db₁ tenantId metricId (i + 1) bucketStart₁ ∧
        (db.Upper → (db₁.Upper ↔ db.Fits tenantId metricId (tier :: tiers) i bucketStart))) :
    ∃ db', db.apply tenantId metricId (tier :: tiers) i bucketStart incoming = some db' ∧
      db'.Sound now ∧ Applied db db' tenantId metricId i bucketStart ∧
      (db.Upper → (db'.Upper ↔ (∀ r ∈ incoming.samples,
        r.secs < db.target ⟨tenantId, metricId, i⟩ bucketStart + tier.stepSecs) ∧
        db.Fits tenantId metricId (tier :: tiers) i bucketStart)) := by
  cases hc : db.cursors.lookup ⟨tenantId, metricId, i⟩ with
  | none =>
    have htarget : db.target ⟨tenantId, metricId, i⟩ bucketStart = bucketStart := by
      rw [target, hc]
      rfl
    obtain ⟨hsound, happlied, hupper⟩ := openWindow_spec hev htier htarget le_rfl h
      (Applied.refl db tenantId metricId (i + 1) bucketStart) rfl
    refine ⟨_, apply_of_cursor_eq_none hc _ _ _ _, hsound, happlied, fun hu => ?_⟩
    have hfits : db.Fits tenantId metricId (tier :: tiers) i bucketStart :=
      fits_of_open fun cursor hc' => by rw [hc] at hc'; cases hc'
    rw [hupper hu, and_iff_left hu, and_iff_left hfits]
  | some cursor =>
    obtain ⟨row, hrow, hstart⟩ := h.cursor _ cursor hc
    have hfetch : db.fetchSlot ⟨tenantId, metricId, i⟩ cursor.slot = some row.agg := by
      rw [fetchSlot, hrow, Option.map_some]
    rw [apply_of_cursor hc, hfetch, Option.bind_some]
    have hmerge := fun hle newer => merge_spec h hev htier hc hrow hstart hle newer rfl
    have hfits : bucketStart ≤ cursor.bucketStart →
        db.Fits tenantId metricId (tier :: tiers) i bucketStart := fun hle =>
      fits_of_open fun cursor' hc' => by
        obtain rfl := Option.some.inj (hc.symm.trans hc')
        exact hle
    by_cases hsame : cursor.bucketStart = bucketStart
    · obtain ⟨hsound, happlied, hupper⟩ := hmerge hsame.ge true
      refine ⟨_, if_pos hsame, ?_⟩
      rw [hsame] at hsound happlied hupper
      exact ⟨hsound, happlied, fun hu => by rw [hupper hu, and_iff_left (hfits hsame.ge)]⟩
    · by_cases hlate : bucketStart < cursor.bucketStart
      · obtain ⟨hsound, happlied, hupper⟩ := hmerge hlate.le false
        exact ⟨_, (if_neg hsame).trans (if_pos hlate), hsound, happlied,
          fun hu => by rw [hupper hu, and_iff_left (hfits hlate.le)]⟩
      · -- the window closes: the coarser tiers come first
        have hlt : cursor.bucketStart < bucketStart := lt_of_le_of_ne (not_lt.1 hlate) hsame
        obtain ⟨db₁, bucketStart₁, hup, hle, h₁, happlied₁, hupper₁⟩ :=
          hfold cursor row hc hrow hstart hlt
        have htarget : db.target ⟨tenantId, metricId, i⟩ bucketStart = bucketStart := by
          rw [target, hc]
          exact max_eq_left hlt.le
        obtain ⟨hsound, happlied, hupper⟩ :=
          openWindow_spec hev htier htarget (hle.trans hlt.le) h₁ happlied₁ rfl
        refine ⟨_, (if_neg hsame).trans ((if_neg hlate).trans (by rw [hup, Option.map_some])), hsound,
          happlied, fun hu => ?_⟩
        rw [hupper hu, hupper₁ hu]

/-- **`apply` does not panic, and keeps what holds anyway**; it keeps every sample before the end of its
bucket just if the samples of the event are, and those of the buckets that close. -/
theorem apply_spec (h : db.Sound now) {tier : TierConfig} {tiers : List TierConfig}
    (hgeo : db.Geometry (tier :: tiers) i) (hpos : ∀ t ∈ tiers, 0 < t.stepSecs)
    (hev : Event now db tenantId metricId i bucketStart incoming) :
    ∃ db', db.apply tenantId metricId (tier :: tiers) i bucketStart incoming = some db' ∧
      db'.Sound now ∧ Applied db db' tenantId metricId i bucketStart ∧
      (db.Upper → (db'.Upper ↔ (∀ r ∈ incoming.samples,
        r.secs < db.target ⟨tenantId, metricId, i⟩ bucketStart + tier.stepSecs) ∧
        db.Fits tenantId metricId (tier :: tiers) i bucketStart)) := by
  induction tiers generalizing i tier bucketStart incoming with
  | nil =>
    refine apply_spec_of_foldUp h (hgeo 0 tier rfl) hev fun cursor row hc hrow hstart hlt => ?_
    exact ⟨db, cursor.bucketStart, rfl, le_rfl, h, Applied.refl .., fun hu => iff_of_true hu trivial⟩
  | cons next tiers ih =>
    refine apply_spec_of_foldUp h (hgeo 0 tier rfl) hev fun cursor row hc hrow hstart hlt => ?_
    have hnext : 0 < next.stepSecs := hpos next List.mem_cons_self
    obtain ⟨db₁, happly, h₁, happlied, hupper⟩ := ih (Geometry.tail hgeo)
      (fun t ht => hpos t (List.mem_cons_of_mem _ ht))
      (Event.of_closed h hc hrow hstart (hgeo 1 next rfl) hnext)
    exact ⟨db₁, _, happly, floorToStep_le hnext _, h₁, happlied,
      fun hu => (hupper hu).trans (fits_of_closed hc hlt hrow).symm⟩

end

/-! ### Calls -/

variable {db : UsageDb Gathered} {now : ℤ}

theorem Sound.of_metrics (h : db.Sound now) (metrics : List MetricRow) (nextMetricId : ℕ) :
    Sound now { db with metrics := metrics, nextMetricId := nextMetricId } :=
  ⟨h.config, h.cursor, h.aligned, h.lower, h.order, h.now⟩

theorem Sound.loadTierConfig (h : db.Sound now) : ∃ tier tiers,
    db.loadTierConfig = tier :: tiers ∧ db.Geometry (tier :: tiers) 0 ∧
      ∀ t ∈ tier :: tiers, 0 < t.stepSecs := by
  obtain ⟨t₀, h₀, hpos₀⟩ := h.config 0 (by decide)
  obtain ⟨t₁, h₁, hpos₁⟩ := h.config 1 (by decide)
  obtain ⟨t₂, h₂, hpos₂⟩ := h.config 2 (by decide)
  refine ⟨t₀, [t₁, t₂], ?_, fun k tier hk => ?_, ?_⟩
  · simp [UsageDb.loadTierConfig, h₀, h₁, h₂]
  · rw [Nat.zero_add]
    rcases k with _ | _ | _ | k
    · exact Option.some.inj hk ▸ h₀
    · exact Option.some.inj hk ▸ h₁
    · exact Option.some.inj hk ▸ h₂
    · simp at hk
  · simp only [List.forall_mem_cons]
    exact ⟨hpos₀, hpos₁, hpos₂, fun t ht => absurd ht List.not_mem_nil⟩

end UsageDb

/-- The buckets that a call closes fit into the coarser ones. -/
def UsageCall.Fits (db : UsageDb Gathered) : UsageCall → Prop
  | record r => ∀ metricId created, db.getOrCreateMetric r.name r.kind = (.ok metricId, created) →
      created.Fits r.tenantId metricId created.loadTierConfig 0
        (floorToStep r.secs ((created.loadTierConfig.head?.map TierConfig.stepSecs).getD 0))
  | setTierConfig .. => True

namespace UsageDb

variable {db : UsageDb Gathered} {now : ℤ}

theorem record_spec (h : db.Sound now) {r : UsageSample} (hr : now ≤ r.secs) :
    ∃ result db', db.record r = some (result, db') ∧ db'.Sound r.secs ∧
      (db.Upper → (db'.Upper ↔ (UsageCall.record r).Fits db)) := by
  obtain ⟨metrics, nextMetricId, hsnd⟩ := db.getOrCreateMetric_snd r.name r.kind
  cases hget : db.getOrCreateMetric r.name r.kind with
  | mk result created =>
    rw [hget] at hsnd
    dsimp only at hsnd
    have hcreated : created.Sound r.secs := by
      rw [hsnd]
      exact (h.mono hr).of_metrics _ _
    have hupper : created.Upper ↔ db.Upper := by
      rw [hsnd]
      exact Iff.rfl
    -- a sample that its kind refuses reaches no ring; any other one is an event of the finest tier
    cases result with
    | error e =>
      refine ⟨.error e, created, by rw [record, hget], hcreated, fun hu => ?_⟩
      refine iff_of_true (hupper.2 hu) fun metricId created' heq => ?_
      rw [hget] at heq
      cases heq
    | ok metricId =>
      obtain ⟨tier, tiers, htiers, hgeo, hpos⟩ := hcreated.loadTierConfig
      have hstep : 0 < tier.stepSecs := hpos tier List.mem_cons_self
      have hle := floorToStep_le hstep r.secs
      have hev : Event r.secs created r.tenantId metricId 0 (floorToStep r.secs tier.stepSecs)
          (Aggregate.single r) := by
        refine ⟨fun t ht => ?_, fun r' hr' => ?_, fun j cursor _ hc r' hr' => ?_,
          fun j _ _ hj => ?_, hle⟩
        · obtain rfl := Option.some.inj ((hgeo 0 tier rfl).symm.trans ht)
          exact Int.dvd_mul_left _ _
        · obtain rfl := List.mem_singleton.1 hr'
          exact hle
        · obtain rfl := List.mem_singleton.1 hr'
          exact hcreated.now _ cursor hc
        · exact absurd hj (Nat.not_lt_zero j)
      obtain ⟨db', happly, hsound, -, hiff⟩ := apply_spec hcreated hgeo
        (fun t ht => hpos t (List.mem_cons_of_mem _ ht)) hev
      refine ⟨.ok (), db', ?_, hsound, fun hu => ?_⟩
      · rw [record, hget]
        dsimp only
        rw [htiers]
        dsimp only
        rw [happly, Option.map_some]
      · rw [hiff (hupper.2 hu)]
        -- in the finest tier the sample is before the end of its bucket, and so of a later one
        have hfirst : ∀ r' ∈ (Aggregate.single r : Gathered).samples, r'.secs <
            created.target ⟨r.tenantId, metricId, 0⟩ (floorToStep r.secs tier.stepSecs) +
              tier.stepSecs := by
          intro r' hr'
          obtain rfl := List.mem_singleton.1 hr'
          exact (lt_floorToStep_add hstep r'.secs).trans_le
            (Int.add_le_add_right (created.le_target _ _) _)
        rw [and_iff_right hfirst, UsageCall.Fits]
        constructor
        · intro hfits metricId' created' heq
          rw [hget] at heq
          cases heq
          rwa [htiers]
        · intro hfits
          have := hfits metricId created hget
          rwa [htiers] at this

theorem lookup_config_of_ne {tierIdx i : ℕ} {tier tier' : TierConfig} (hne : i ≠ tierIdx)
    (h : db.config.lookup i = some tier) : (db.config.insert tierIdx tier').lookup i = some tier :=
  (AList.lookup_insert_ne hne).trans h

/-- A tier that is reset: what is left is of other tiers. -/
theorem setTierConfig_sound (h : db.Sound now) (tierIdx stepSecs slots : ℤ) :
    (db.setTierConfig tierIdx stepSecs slots).2.Sound now := by
  unfold setTierConfig
  split_ifs with htier hstep
  · exact h
  · refine ⟨fun i hi => ?_, fun key cursor hc => ?_, fun key row tier hrow htier => ?_,
      fun key row hrow => ?_, ?_, ?_⟩
    · by_cases heq : i = tierIdx.toNat
      · subst heq
        exact ⟨⟨stepSecs, slots⟩, AList.lookup_insert _, by dsimp only; omega⟩
      · obtain ⟨tier, htier, hpos⟩ := h.config i hi
        exact ⟨tier, lookup_config_of_ne heq htier, hpos⟩
    · obtain ⟨hne, hc⟩ := Assoc.lookup_keep_eq_some_iff.1 hc
      obtain ⟨row, hrow, hstart⟩ := h.cursor key cursor hc
      exact ⟨row, Assoc.lookup_keep_eq_some_iff.2 ⟨hne, hrow⟩, hstart⟩
    · obtain ⟨hne, hrow⟩ := Assoc.lookup_keep_eq_some_iff.1 hrow
      rw [AList.lookup_insert_ne (of_decide_eq_true hne)] at htier
      exact h.aligned key row tier hrow htier
    · exact h.lower key row (Assoc.lookup_keep_eq_some_iff.1 hrow).2
    · intro t m i j cursor row cursor' hij hc hrow hc'
      exact h.order t m i j cursor row cursor' hij (Assoc.lookup_keep_eq_some_iff.1 hc).2
        (Assoc.lookup_keep_eq_some_iff.1 hrow).2 (Assoc.lookup_keep_eq_some_iff.1 hc').2
    · exact fun key cursor hc => h.now key cursor (Assoc.lookup_keep_eq_some_iff.1 hc).2
  · exact h

theorem setTierConfig_upper (h : db.Upper) (tierIdx stepSecs slots : ℤ) :
    (db.setTierConfig tierIdx stepSecs slots).2.Upper := by
  unfold setTierConfig
  split_ifs
  · exact h
  · intro key row hrow
    obtain ⟨hne, hrow⟩ := Assoc.lookup_keep_eq_some_iff.1 hrow
    obtain ⟨tier, htier, hall⟩ := h key row hrow
    exact ⟨tier, lookup_config_of_ne (of_decide_eq_true hne) htier, hall⟩
  · exact h

theorem sound_init (now : ℤ) : Sound now {} where
  config
    | 0, _ => ⟨⟨60, 360⟩, rfl, by decide⟩
    | 1, _ => ⟨⟨900, 1344⟩, rfl, by decide⟩
    | 2, _ => ⟨⟨21600, 1460⟩, rfl, by decide⟩
  cursor _ _ hc := by cases hc
  aligned _ _ _ hrow := by cases hrow
  lower _ _ hrow := by cases hrow
  order _ _ _ _ _ _ _ _ hc := by cases hc
  now _ _ hc := by cases hc

end UsageDb

/-! ### Runs -/

/-- The time of a call. -/
def UsageCall.nanos? : UsageCall → Option ℤ
  | record r => some r.nanos
  | setTierConfig .. => none

/-- The samples come in the order of time. -/
def InTime (calls : List UsageCall) : Prop :=
  (calls.filterMap UsageCall.nanos?).Pairwise (· ≤ ·)

instance (calls : List UsageCall) : Decidable (InTime calls) :=
  inferInstanceAs (Decidable ((calls.filterMap UsageCall.nanos?).Pairwise (· ≤ ·)))

theorem InTime.of_append {calls calls' : List UsageCall} (h : InTime (calls ++ calls')) :
    InTime calls := by
  rw [InTime, List.filterMap_append] at h
  exact (List.pairwise_append.1 h).1

theorem UsageCall.execAll_append {α : Type} [Aggregate ℚ α] (calls calls' : List UsageCall)
    (db : UsageDb α) : execAll db (calls ++ calls') =
      (execAll db calls).bind fun db => execAll db calls' := by
  induction calls generalizing db with
  | nil => rfl
  | cons call calls ih =>
    rw [List.cons_append, execAll, execAll]
    cases call.exec db with
    | none => rfl
    | some x => exact ih x.2

theorem UsageCall.execAll_concat {α : Type} [Aggregate ℚ α] {calls : List UsageCall} {db db' : UsageDb α}
    (h : execAll db calls = some db') (call : UsageCall) :
    execAll db (calls ++ [call]) = (call.exec db').map Prod.snd := by
  rw [execAll_append, h, Option.bind_some, execAll]
  cases call.exec db' <;> rfl

/-- What holds anyway, at any time that is not before the calls. -/
def SoundAfter (calls : List UsageCall) (db : UsageDb Gathered) : Prop :=
  ∀ now, (∀ nanos ∈ calls.filterMap UsageCall.nanos?, nanos / 1000000000 ≤ now) → db.Sound now

/-- **A call.**  It keeps every sample before the end of its bucket just if the buckets that it closes
fit. -/
theorem exec_spec {calls : List UsageCall} {call : UsageCall} (h : InTime (calls ++ [call]))
    {db : UsageDb Gathered} (hdb : SoundAfter calls db) :
    ∃ result db', call.exec db = some (result, db') ∧ SoundAfter (calls ++ [call]) db' ∧
      (db.Upper → (db'.Upper ↔ call.Fits db)) := by
  rw [InTime, List.filterMap_append, List.pairwise_append] at h
  cases call with
  | record r =>
    have hlast : ∀ nanos ∈ calls.filterMap UsageCall.nanos?, nanos / 1000000000 ≤ r.secs :=
      fun nanos hnanos => Int.ediv_le_ediv (by decide)
        (h.2.2 nanos hnanos r.nanos (List.mem_singleton.2 rfl))
    obtain ⟨result, db', hexec, hsound, hupper⟩ := UsageDb.record_spec (hdb r.secs hlast) le_rfl
    refine ⟨result, db', hexec, fun now hnow => hsound.mono (hnow r.nanos ?_), hupper⟩
    rw [List.filterMap_append]
    exact List.mem_append_right _ (List.mem_singleton.2 rfl)
  | setTierConfig tierIdx stepSecs slots =>
    refine ⟨_, _, rfl, fun now hnow => ?_, fun hu =>
      iff_of_true (UsageDb.setTierConfig_upper hu tierIdx stepSecs slots) trivial⟩
    refine UsageDb.setTierConfig_sound (hdb now fun nanos hnanos => hnow nanos ?_) _ _ _
    rw [List.filterMap_append]
    exact List.mem_append_left _ hnanos

/-- **Calls in the order of time keep what holds anyway**, without a panic. -/
theorem execAll_sound {calls : List UsageCall} (h : InTime calls) :
    ∃ db, UsageCall.execAll ({} : UsageDb Gathered) calls = some db ∧ SoundAfter calls db := by
  induction calls using List.reverseRecOn with
  | nil => exact ⟨{}, rfl, fun now _ => UsageDb.sound_init now⟩
  | append_singleton calls call ih =>
    obtain ⟨db, hdb, hsound⟩ := ih h.of_append
    obtain ⟨result, db', hexec, hsound', -⟩ := exec_spec h hsound
    refine ⟨db', ?_, hsound'⟩
    rw [UsageCall.execAll_concat hdb, hexec, Option.map_some]

/-- The tables after calls. -/
def After (calls : List UsageCall) (db : UsageDb Gathered) : Prop :=
  UsageCall.execAll {} calls = some db

theorem After.sound {calls : List UsageCall} {db : UsageDb Gathered} (h : After calls db)
    (hcalls : InTime calls) : SoundAfter calls db := by
  obtain ⟨db', hdb', hsound⟩ := execAll_sound hcalls
  obtain rfl := Option.some.inj (h.symm.trans hdb')
  exact hsound

theorem After.step {calls : List UsageCall} {call : UsageCall} {db : UsageDb Gathered}
    (h : After calls db) (hcalls : InTime (calls ++ [call])) :
    ∃ db', After (calls ++ [call]) db' ∧ (db.Upper → (db'.Upper ↔ call.Fits db)) := by
  obtain ⟨result, db', hexec, -, hupper⟩ := exec_spec hcalls (h.sound hcalls.of_append)
  refine ⟨db', ?_, hupper⟩
  rw [After, UsageCall.execAll_concat h, hexec, Option.map_some]

theorem After.exists_sound {calls : List UsageCall} {db : UsageDb Gathered} (h : After calls db)
    (hcalls : InTime calls) : ∃ now, db.Sound now := by
  obtain ⟨now, hnow⟩ : ∃ now, ∀ nanos ∈ calls.filterMap UsageCall.nanos?, nanos / 1000000000 ≤ now := by
    induction calls.filterMap UsageCall.nanos? with
    | nil => exact ⟨0, fun nanos hn => absurd hn List.not_mem_nil⟩
    | cons nanos rest ih =>
      obtain ⟨now, hnow⟩ := ih
      exact ⟨max (nanos / 1000000000) now, List.forall_mem_cons.2
        ⟨le_max_left _ _, fun n hn => (hnow n hn).trans (le_max_right _ _)⟩⟩
  exact ⟨now, h.sound hcalls now hnow⟩

theorem After.consistent_iff_upper {calls : List UsageCall} {db : UsageDb Gathered} (h : After calls db)
    (hcalls : InTime calls) : db.Consistent ↔ db.Upper := by
  obtain ⟨now, hsound⟩ := h.exists_sound hcalls
  exact hsound.consistent_iff_upper

/-- If every call fits, no sample is after its bucket. -/
theorem After.upper {calls : List UsageCall} {db : UsageDb Gathered} (h : After calls db)
    (hcalls : InTime calls) (hall : ∀ pre call db, pre ++ [call] <+: calls → After pre db → db.Upper →
      call.Fits db) : db.Upper := by
  induction calls using List.reverseRecOn generalizing db with
  | nil =>
    obtain rfl := Option.some.inj h
    exact fun key row hrow => by cases hrow
  | append_singleton calls call ih =>
    obtain ⟨db₁, hdb₁, -⟩ := execAll_sound hcalls.of_append
    obtain ⟨db', hdb', hiff⟩ := After.step hdb₁ hcalls
    obtain rfl := Option.some.inj (h.symm.trans hdb')
    have hupper := ih hdb₁ hcalls.of_append fun pre call' db hpre =>
      hall pre call' db (hpre.trans (List.prefix_append calls [call]))
    exact (hiff hupper).2 (hall calls call db₁ List.prefix_rfl hdb₁ hupper)

/-- **Calls in the order of time, whatever tiers they configure, keep the tables consistent just if every
bucket that they close fits into the coarser one**: none of its samples is past the end of that.  At
times that are not negative no operation of 64 bits overflows. -/
theorem consistent_iff {calls : List UsageCall} (h : InTime calls) :
    (∃ db, After calls db ∧ UsageCall.execAll {} calls = some (db.map Gathered.summary) ∧
      ((∀ call ∈ calls, call.AtTime) →
        UsageCall.execAllI64 {} calls = some (some (db.map Gathered.summary)))) ∧
      ((∀ pre db, pre <+: calls → After pre db → db.Consistent) ↔
        ∀ pre call db, pre ++ [call] <+: calls → After pre db → call.Fits db) := by
  have hpre : ∀ {pre}, pre <+: calls → InTime pre := by
    rintro pre ⟨rest, rfl⟩
    exact h.of_append
  refine ⟨?_, fun hall pre call db hcall hdb => ?_, fun hall pre db hstarts hdb => ?_⟩
  · obtain ⟨db, hdb, -⟩ := execAll_sound h
    have hexec : UsageCall.execAll {} calls = some (db.map Gathered.summary) := by
      rw [execAll_gathered, hdb, Option.map_some]
    exact ⟨db, hdb, hexec, fun htimes =>
      (UsageDb.bounded_init.execAllI64_eq htimes).trans (congrArg some hexec)⟩
  · obtain ⟨db', hdb', hiff⟩ := hdb.step (hpre hcall)
    have hupper := (hdb.consistent_iff_upper (hpre hcall).of_append).1
      (hall pre db ((List.prefix_append pre [call]).trans hcall) hdb)
    exact (hiff hupper).1 ((hdb'.consistent_iff_upper (hpre hcall)).1 (hall _ db' hcall hdb'))
  · rw [hdb.consistent_iff_upper (hpre hstarts)]
    exact hdb.upper (hpre hstarts) fun pre' call db' hpre' hdb' _ =>
      hall pre' call db' (hpre'.trans hstarts) hdb'

/-! ### Steps that divide the coarser ones -/

/-- Each step divides the next coarser one. -/
def UsageDb.Nested (db : UsageDb Gathered) : Prop :=
  ∀ i tier next, db.config.lookup i = some tier → db.config.lookup (i + 1) = some next →
    tier.stepSecs ∣ next.stepSecs

theorem add_le_floorToStep_add {step next secs : ℤ} (hpos : 0 < next) (hdvd : step ∣ next)
    (hsecs : step ∣ secs) : secs + step ≤ floorToStep secs next + next := by
  have hend : step ∣ floorToStep secs next + next :=
    dvd_add (hdvd.trans (Int.dvd_mul_left _ _)) hdvd
  have hlt := UsageDb.lt_floorToStep_add hpos secs
  have hle : step ≤ floorToStep secs next + next - secs :=
    Int.le_of_dvd (sub_pos.2 hlt) (dvd_sub hend hsecs)
  omega

theorem UsageDb.fits_of_nested {db : UsageDb Gathered} {now : ℤ} (h : db.Sound now) (hu : db.Upper)
    (hn : db.Nested) (tenantId metricId : ℕ) {tier : TierConfig} {tiers : List TierConfig} {i : ℕ}
    (hgeo : db.Geometry (tier :: tiers) i) (hpos : ∀ t ∈ tiers, 0 < t.stepSecs) (bucketStart : ℤ) :
    db.Fits tenantId metricId (tier :: tiers) i bucketStart := by
  induction tiers generalizing i tier bucketStart with
  | nil => trivial
  | cons next tiers ih =>
    rw [Fits]
    intro cursor row hc _ hrow
    refine ⟨fun r hr => ?_, ih (Geometry.tail hgeo) (fun t ht => hpos t (List.mem_cons_of_mem _ ht)) _⟩
    have hnext : 0 < next.stepSecs := hpos next List.mem_cons_self
    obtain ⟨row', hrow', hstart⟩ := h.cursor _ cursor hc
    obtain rfl := Option.some.inj (hrow.symm.trans hrow')
    obtain ⟨tier', htier', hall⟩ := hu _ row hrow
    obtain rfl := Option.some.inj ((hgeo 0 tier rfl).symm.trans htier')
    have hdvd := hn i tier next htier' (hgeo 1 next rfl)
    rw [← hstart]
    calc r.secs < row.bucketStart + tier.stepSecs := hall r hr
      _ ≤ floorToStep row.bucketStart next.stepSecs + next.stepSecs :=
        add_le_floorToStep_add hnext hdvd (h.aligned _ row tier hrow htier')
      _ ≤ _ := Int.add_le_add_right (db.le_target _ _) _

/-- **As long as the steps that are configured divide the coarser ones, calls in the order of time keep
the tables consistent.** -/
theorem consistent_of_nested {calls : List UsageCall} (h : InTime calls)
    (hn : ∀ pre db, pre <+: calls → After pre db → db.Nested) {db : UsageDb Gathered}
    (hdb : After calls db) : db.Consistent := by
  refine (hdb.consistent_iff_upper h).2 (hdb.upper h fun pre call db hpre hdb hu => ?_)
  have hbefore : pre <+: calls := (List.prefix_append pre [call]).trans hpre
  have hin : InTime pre := by
    obtain ⟨rest, rfl⟩ := hbefore
    exact h.of_append
  obtain ⟨now, hsound⟩ := hdb.exists_sound hin
  cases call with
  | record r =>
    intro metricId created hget
    obtain ⟨metrics, nextMetricId, hsnd⟩ := db.getOrCreateMetric_snd r.name r.kind
    rw [hget] at hsnd
    obtain rfl := hsnd
    obtain ⟨tier, tiers, htiers, hgeo, hpos⟩ :=
      (hsound.of_metrics metrics nextMetricId).loadTierConfig
    rw [htiers]
    exact UsageDb.fits_of_nested (hsound.of_metrics metrics nextMetricId) hu (hn pre db hbefore hdb) _ _
      hgeo (fun t ht => hpos t (List.mem_cons_of_mem _ ht)) _
  | setTierConfig => trivial

/-- A minute that a coarser step of a hundred seconds splits, and the sample that closes it. -/
def exampleSplit : List UsageCall :=
  [.setTierConfig 1 100 10, .record ⟨1, "events".toList, .counter, 1, 110000000000⟩,
    .record ⟨1, "events".toList, .counter, 1, 120000000000⟩]

theorem consistent_iff_exampleSplit :
    (∃ db, After exampleSplit db ∧
      UsageCall.execAll {} exampleSplit = some (db.map Gathered.summary) ∧
      ((∀ call ∈ exampleSplit, call.AtTime) →
        UsageCall.execAllI64 {} exampleSplit = some (some (db.map Gathered.summary)))) ∧
      ((∀ pre db, pre <+: exampleSplit → After pre db → db.Consistent) ↔
        ∀ pre call db, pre ++ [call] <+: exampleSplit → After pre db → call.Fits db) :=
  consistent_iff (by decide)

/-- **The hundred and tenth second is accumulated in the row of the first hundred.** -/
theorem not_consistent : InTime exampleSplit ∧ ∃ db, After exampleSplit db ∧ ¬ db.Consistent := by
  refine ⟨by decide, _, rfl, fun h => ?_⟩
  obtain ⟨tier, htier, hall⟩ := h.sample ⟨⟨1, 1, 1⟩, 0⟩ _ rfl
  obtain rfl := Option.some.inj htier
  exact absurd (hall _ List.mem_cons_self).2 (by decide)

end Hub

end Wkp
