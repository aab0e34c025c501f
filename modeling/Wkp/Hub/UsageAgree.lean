import Wkp.Core.UsageSqlite
import Wkp.Hub.Usage

/-!
# The usage metrics of the hub and of a client

* `Hub.UsageDb.engine` : the statements of the hub for one tenant; `Hub.UsageDb.apply_eq` : its `apply` is
  that over the statements.
* `Hub.Tracks` : the tables of the hub hold a usage store.
* `Hub.execAll_tracks` : **samples of one tenant keep this.**
* `Hub.Corresponds` : the rows and cursors of a client and of the hub are the same, metric by metric.
* `Hub.usage_agrees` : **so a client and the hub answer alike.**
-/

namespace Wkp

open Rust Usage

namespace Hub

/-- A tier as it is configured. -/
def TierConfig.ofTier (tier : Tier) : TierConfig := ⟨tier.stepSecs, tier.slots⟩

namespace UsageDb

variable {V : Type}

/-! ### The statements -/

/-- The columns of a row that are not its key. -/
def row (row : UsageRow (SlotAgg V)) : Row V := ⟨row.bucketStart, row.agg⟩

/-- The statements for the metrics of a tenant. -/
def engine (tenantId : ℕ) : Engine (UsageDb (SlotAgg V)) V where
  metrics := UsageDb.metrics
  tables metricId := {
    fetchRow := fun db i _ slot => (db.ring.lookup ⟨⟨tenantId, metricId, i⟩, slot⟩).map row
    writeSlot := fun i _ slot row db =>
      db.writeSlot ⟨tenantId, metricId, i⟩ slot row.bucketStart row.agg
    fetchCursor := fun db i => db.cursors.lookup ⟨tenantId, metricId, i⟩
    setCursor := fun i cursor db =>
      db.setCursor ⟨tenantId, metricId, i⟩ cursor.slot cursor.bucketStart
    selectRows := fun db i _ =>
      (db.ring.entries.filter fun e => e.1.toCursorKey = ⟨tenantId, metricId, i⟩).map fun e =>
        row e.2 }

theorem lawful (tenantId : ℕ) (all : List Tier) :
    (engine tenantId : Engine (UsageDb (SlotAgg V)) V).Lawful all where
  row_writeSlot {i j _ _} _ _ id id' slot slot' row' db := by
    change ((db.writeSlot _ slot _ _).ring.lookup _).map row = _
    by_cases hkey : (⟨⟨tenantId, id', j⟩, slot'⟩ : RingKey) = ⟨⟨tenantId, id, i⟩, slot⟩
    · obtain ⟨hkey', rfl⟩ := RingKey.mk.inj hkey
      obtain ⟨-, rfl, rfl⟩ := CursorKey.mk.inj hkey'
      rw [if_pos ⟨rfl, rfl, rfl⟩, writeSlot, AList.lookup_insert]
      rfl
    · rw [if_neg fun heq => hkey (by rw [heq.1, heq.2.1, heq.2.2]), writeSlot,
        AList.lookup_insert_ne hkey]
      rfl
  cursor_writeSlot _ _ _ _ _ _ _ _ := rfl
  row_setCursor _ _ _ _ _ _ _ _ := rfl
  cursor_setCursor id id' i cursor db j := by
    change (db.cursors.insert _ _).lookup _ = _
    by_cases hkey : (⟨tenantId, id', j⟩ : CursorKey) = ⟨tenantId, id, i⟩
    · obtain ⟨-, rfl, rfl⟩ := CursorKey.mk.inj hkey
      rw [if_pos ⟨rfl, rfl⟩, AList.lookup_insert]
    · rw [if_neg fun heq => hkey (by rw [heq.1, heq.2]), AList.lookup_insert_ne hkey]
      rfl
  metrics_writeSlot _ _ _ _ _ _ := rfl
  metrics_setCursor _ _ _ _ := rfl
  select {i tier} _ id db rows hrows := by
    -- the rows of a window are those of the tables whose key has its metric and its tier
    have hlookup : ∀ slot, (Assoc.mapVal row db.ring).lookup ⟨⟨tenantId, id, i⟩, slot⟩ =
        rows.lookup slot := fun slot => by
      rw [Assoc.lookup_mapVal]
      exact hrows slot
    have hperm := Table.perm_section (fun slot => (⟨⟨tenantId, id, i⟩, slot⟩ : RingKey))
      (fun _ _ h => (RingKey.mk.inj h).2) hlookup (fun k => k.toCursorKey = ⟨tenantId, id, i⟩) fun k => by
        rw [decide_eq_true_iff]
        constructor
        · intro h
          exact ⟨k.slot, by rw [← h]⟩
        · rintro ⟨_, h⟩
          rw [← h]
    refine (List.Perm.of_eq ?_).trans hperm
    simp only [Assoc.mapVal, List.filter_map, List.map_map]
    rfl

/-- **`apply` of the hub is `apply` over its statements.** -/
theorem apply_eq [Add V] [Min V] [Max V] (tenantId metricId : ℕ) (ts : List Tier) (i : ℕ)
    (bucketStart : ℤ) (incoming : SlotAgg V) (db : UsageDb (SlotAgg V)) :
    db.apply tenantId metricId (ts.map TierConfig.ofTier) i bucketStart incoming =
      ((engine tenantId).tables metricId).apply ts i bucketStart incoming db := by
  induction ts generalizing i bucketStart incoming db with
  | nil => rfl
  | cons tier ts ih =>
    have hfold : ∀ bucketStart agg,
        db.foldUp tenantId metricId (ts.map TierConfig.ofTier) (i + 1) bucketStart agg =
          ((engine tenantId).tables metricId).foldUp ts (i + 1) bucketStart agg db := by
      intro bucketStart agg
      cases ts with
      | nil => rfl
      | cons next ts => exact ih (i + 1) _ agg db
    rw [List.map_cons]
    cases hc : db.cursors.lookup ⟨tenantId, metricId, i⟩ with
    | none =>
      have hc' : ((engine tenantId).tables metricId).fetchCursor db i = none := hc
      rw [apply_of_cursor_eq_none hc, RingTables.apply, hc']
      rfl
    | some cursor =>
      have hfetch : ((engine tenantId).tables metricId).fetchRow db i tier cursor.slot =
          (db.ring.lookup ⟨⟨tenantId, metricId, i⟩, cursor.slot⟩).map row := rfl
      rw [apply_of_cursor hc, RingTables.apply_of_cursor _ hc, hfetch, fetchSlot]
      cases db.ring.lookup ⟨⟨tenantId, metricId, i⟩, cursor.slot⟩ with
      | none => rfl
      | some existing =>
        rw [Option.map_some, Option.map_some, Option.bind_some, Option.bind_some, hfold]
        rfl

/-! ### What `apply` leaves alone -/

/-- The metrics, the tiers as they are configured, and what other tenants have and what tiers from `n` on
have. -/
structure Elsewhere {α : Type} (tenantId n : ℕ) (db db' : UsageDb α) : Prop where
  /-- The metrics. -/
  metrics : db'.metrics = db.metrics
  /-- Their sequence. -/
  nextMetricId : db'.nextMetricId = db.nextMetricId
  /-- The tiers. -/
  config : db'.config = db.config
  /-- The rows. -/
  ring : ∀ key, key.tenantId ≠ tenantId ∨ n ≤ key.tierIdx → db'.ring.lookup key = db.ring.lookup key
  /-- The cursors. -/
  cursors : ∀ key, key.tenantId ≠ tenantId ∨ n ≤ key.tierIdx →
    db'.cursors.lookup key = db.cursors.lookup key

section

variable {α : Type} {tenantId n : ℕ} {db db₁ db' : UsageDb α}

theorem Elsewhere.refl (tenantId n : ℕ) (db : UsageDb α) : Elsewhere tenantId n db db :=
  ⟨rfl, rfl, rfl, fun _ _ => rfl, fun _ _ => rfl⟩

theorem Elsewhere.trans (h : Elsewhere tenantId n db db₁) (h' : Elsewhere tenantId n db₁ db') :
    Elsewhere tenantId n db db' where
  metrics := h'.metrics.trans h.metrics
  nextMetricId := h'.nextMetricId.trans h.nextMetricId
  config := h'.config.trans h.config
  ring key hkey := (h'.ring key hkey).trans (h.ring key hkey)
  cursors key hkey := (h'.cursors key hkey).trans (h.cursors key hkey)

variable {metricId i : ℕ}

theorem elsewhere_writeSlot (db : UsageDb α) (hi : i < n) (slot bucketStart : ℤ) (agg : α) :
    Elsewhere tenantId n db (db.writeSlot ⟨tenantId, metricId, i⟩ slot bucketStart agg) where
  metrics := rfl
  nextMetricId := rfl
  config := rfl
  ring key hkey := by
    refine AList.lookup_insert_ne ?_
    rintro rfl
    exact hkey.elim (fun h => h rfl) (not_le.2 hi)
  cursors _ _ := rfl

theorem elsewhere_setCursor (db : UsageDb α) (hi : i < n) (slot bucketStart : ℤ) :
    Elsewhere tenantId n db (db.setCursor ⟨tenantId, metricId, i⟩ slot bucketStart) where
  metrics := rfl
  nextMetricId := rfl
  config := rfl
  ring _ _ := rfl
  cursors key hkey := by
    refine AList.lookup_insert_ne ?_
    rintro rfl
    exact hkey.elim (fun h => h rfl) (not_le.2 hi)

theorem elsewhere_openWindow (db : UsageDb α) (hi : i < n) (tier : TierConfig) (bucketStart : ℤ)
    (agg : α) :
    Elsewhere tenantId n db (db.openWindow tier ⟨tenantId, metricId, i⟩ bucketStart agg) :=
  (elsewhere_writeSlot db hi _ _ _).trans (elsewhere_setCursor _ hi _ _)

theorem elsewhere_apply [Aggregate V α] {ts : List TierConfig} (hn : i + ts.length ≤ n)
    {bucketStart : ℤ} {incoming : α}
    (h : db.apply tenantId metricId ts i bucketStart incoming = some db') :
    Elsewhere tenantId n db db' := by
  induction ts generalizing i bucketStart incoming db' with
  | nil => cases h
  | cons tier ts ih =>
    rw [List.length_cons] at hn
    have hi : i < n := by omega
    cases hc : db.cursors.lookup ⟨tenantId, metricId, i⟩ with
    | none =>
      rw [apply_of_cursor_eq_none hc] at h
      obtain rfl := Option.some.inj h
      exact elsewhere_openWindow db hi tier _ _
    | some cursor =>
      rw [apply_of_cursor hc] at h
      obtain ⟨existing, -, h⟩ := Option.bind_eq_some_iff.1 h
      split_ifs at h
      · obtain rfl := Option.some.inj h
        exact elsewhere_writeSlot db hi _ _ _
      · obtain rfl := Option.some.inj h
        exact elsewhere_writeSlot db hi _ _ _
      · obtain ⟨db₁, hup, rfl⟩ := Option.map_eq_some_iff.1 h
        refine Elsewhere.trans ?_ (elsewhere_openWindow db₁ hi tier _ _)
        cases ts with
        | nil =>
          obtain rfl := Option.some.inj hup
          exact .refl tenantId n db
        | cons next ts => exact ih (by omega) hup

end

end UsageDb

/-! ### The store of a tenant -/

/-- The tables hold the usage store of a tenant, under the tiers of a client, and nothing else. -/
structure Tracks (tenantId : ℕ) (db : UsageDb (SlotAgg V)) (store : Store V) : Prop where
  /-- The store. -/
  represents : (UsageDb.engine tenantId).Represents tiers db store
  /-- The tiers. -/
  config : db.loadTierConfig = tiers.map TierConfig.ofTier
  /-- The numbers of the metrics come from the sequence. -/
  nextMetricId : ∀ m ∈ db.metrics, m.id < db.nextMetricId
  /-- The rows are those of the tenant. -/
  ring : ∀ key, key.tenantId ≠ tenantId ∨ tiers.length ≤ key.tierIdx → db.ring.lookup key = none
  /-- The cursors are those of the tenant. -/
  cursors : ∀ key, key.tenantId ≠ tenantId ∨ tiers.length ≤ key.tierIdx →
    db.cursors.lookup key = none

theorem tracks_init (tenantId : ℕ) : Tracks (V := V) tenantId {} ∅ where
  represents :=
    { ids := List.nodup_nil
      names := List.nodup_nil
      kinds := fun _ => rfl
      views := fun _ hm => absurd hm List.not_mem_nil
      fresh := fun _ _ => ⟨⟨fun _ => rfl, rfl⟩, ⟨fun _ => rfl, rfl⟩, ⟨fun _ => rfl, rfl⟩, trivial⟩ }
  config := rfl
  nextMetricId _ hm := absurd hm List.not_mem_nil
  ring _ _ := rfl
  cursors _ _ := rfl

/-- A sample, as one of a tenant. -/
def UsageSample.of (tenantId : ℕ) (s : Sample V) : UsageSample V :=
  ⟨tenantId, s.name, s.kind, s.value, s.nanos⟩

section

variable {tenantId : ℕ} {db : UsageDb (SlotAgg V)} {store : Store V}

theorem Tracks.getOrCreateMetric (h : Tracks tenantId db store) {name : Str} {kind : MetricKind}
    (hkind : ∀ m ∈ db.metrics, m.name = name → m.kind = kind) :
    ∃ m created, db.getOrCreateMetric name kind = (.ok m.id, created) ∧
      (UsageDb.engine tenantId).Created tiers db name kind created m ∧
      created.config = db.config ∧ created.ring = db.ring ∧ created.cursors = db.cursors ∧
      ∀ m ∈ created.metrics, m.id < created.nextMetricId := by
  unfold UsageDb.getOrCreateMetric
  cases hfind : db.metrics.find? fun m => m.name = name with
  | some m =>
    obtain ⟨hm, hname⟩ := h.represents.names.find?_eq_some_iff.1 hfind
    dsimp only
    refine ⟨m, { db with nextMetricId := db.nextMetricId + 1 },
      by rw [if_neg (not_not.2 (hkind m hm hname))], ?_, rfl, rfl, rfl,
      fun m' hm' => Nat.lt_succ_of_lt (h.nextMetricId m' hm')⟩
    exact .found hm hname (hkind m hm hname) rfl ⟨fun _ _ _ _ _ _ => rfl, fun _ _ _ => rfl⟩
  | none =>
    refine ⟨⟨db.nextMetricId, name, kind⟩, _, rfl, .fresh (Table.find?_eq_none_iff.1 hfind)
      (fun m hm => Nat.ne_of_lt (h.nextMetricId m hm)) rfl
      ⟨fun _ _ _ _ _ _ => rfl, fun _ _ _ => rfl⟩, rfl, rfl, rfl, fun m hm => ?_⟩
    rcases List.mem_append.1 hm with hm | hm
    · exact Nat.lt_succ_of_lt (h.nextMetricId m hm)
    · rw [List.mem_singleton.1 hm]
      exact Nat.lt_succ_self _

/-- A sample that is not before the epoch: the hub takes or refuses it as a client does. -/
theorem Tracks.record [Add V] [Min V] [Max V] (h : Tracks tenantId db store) {s : Sample V}
    (hnanos : 0 ≤ s.nanos) {r : Except UsageError (Store V)}
    (hrecord : Usage.record tiers store s = some r) :
    ∃ result db', db.record (.of tenantId s) = some (result, db') ∧
      ((∃ e, r = .error e) ∧ Tracks tenantId db' store ∨
        ∃ store', r = .ok store' ∧ Tracks tenantId db' store') := by
  obtain ⟨m, hm, hname, hkind, rfl⟩ | ⟨hkind, store', rfl⟩ :=
    h.represents.record_cases (not_lt.2 hnanos) hrecord
  · -- refused: only the sequence has moved
    have hfind : db.metrics.find? (fun m => m.name = s.name) = some m :=
      h.represents.names.find?_eq_some_iff.2 ⟨hm, hname⟩
    have hget : ∃ e, db.getOrCreateMetric s.name s.kind =
        (.error e, { db with nextMetricId := db.nextMetricId + 1 }) := by
      unfold UsageDb.getOrCreateMetric
      rw [hfind]
      dsimp only
      rw [if_pos hkind]
      exact ⟨_, rfl⟩
    obtain ⟨e, hget⟩ := hget
    refine ⟨.error e, { db with nextMetricId := db.nextMetricId + 1 }, ?_, .inl ⟨⟨_, rfl⟩, ?_⟩⟩
    · unfold UsageDb.record
      rw [UsageSample.of, hget]
    · exact ⟨h.represents.of_agree rfl ⟨fun _ _ _ _ _ _ => rfl, fun _ _ _ => rfl⟩, h.config,
        fun m hm => Nat.lt_succ_of_lt (h.nextMetricId m hm), h.ring, h.cursors⟩
  · obtain ⟨m, created, hget, hcreated, hconfig, hring, hcursors, hnext⟩ :=
      h.getOrCreateMetric hkind
    have htiers : created.loadTierConfig = tiers.map TierConfig.ofTier := by
      rw [← h.config, UsageDb.loadTierConfig, hconfig]
      rfl
    obtain ⟨db', happly, hrep⟩ :=
      Engine.record_represents (UsageDb.lawful tenantId tiers) h.represents hcreated hrecord
    rw [← UsageDb.apply_eq] at happly
    have helse := UsageDb.elsewhere_apply (n := tiers.length) (by decide) happly
    refine ⟨.ok (), db', ?_, .inr ⟨store', rfl, hrep, ?_, ?_, fun key hkey => ?_, fun key hkey => ?_⟩⟩
    · unfold UsageDb.record
      rw [UsageSample.of, hget]
      dsimp only
      rw [htiers]
      exact congrArg (Option.map _) happly
    · rw [← htiers, UsageDb.loadTierConfig, helse.config]
      rfl
    · rw [helse.metrics, helse.nextMetricId]
      exact hnext
    · rw [helse.ring key hkey, hring]
      exact h.ring key hkey
    · rw [helse.cursors key hkey, hcursors]
      exact h.cursors key hkey

/-- **Samples of a tenant leave tables that hold its store.** -/
theorem execAll_tracks [Add V] [Min V] [Max V] (h : Tracks tenantId db store)
    {ss : List (Sample V)} (hnanos : ∀ s ∈ ss, 0 ≤ s.nanos) {store' : Store V}
    (hrecord : Usage.recordAll tiers store ss = some store') :
    ∃ db', UsageCall.execAll db (ss.map fun s => .record (.of tenantId s)) = some db' ∧
      Tracks tenantId db' store' := by
  induction ss generalizing db store with
  | nil =>
    obtain rfl := Option.some.inj hrecord
    exact ⟨db, rfl, h⟩
  | cons s ss ih =>
    obtain ⟨hs, hss⟩ := List.forall_mem_cons.1 hnanos
    rw [Usage.recordAll] at hrecord
    cases hr : Usage.record tiers store s with
    | none =>
      rw [hr] at hrecord
      cases hrecord
    | some r =>
      rw [hr] at hrecord
      obtain ⟨result, db₁, hexec, h₁⟩ := h.record hs hr
      rw [List.map_cons, UsageCall.execAll, UsageCall.exec, hexec]
      obtain ⟨⟨e, rfl⟩, h₁⟩ | ⟨store₁, rfl, h₁⟩ := h₁
      · exact ih h₁ hss hrecord
      · exact ih h₁ hss hrecord

end

/-! ### Queries -/

theorem pickTierIdx_map (ts : List Tier) (windowSecs : ℤ) :
    UsageDb.pickTierIdx (ts.map TierConfig.ofTier) windowSecs = pickTierIdx ts windowSecs := by
  rw [UsageDb.pickTierIdx, pickTierIdx, List.findIdx?_map, List.length_map]
  rfl

theorem openRow_eq (db : UsageDb (SlotAgg V)) (tenantId metricId i : ℕ) (tier : Tier) (cutoff : ℤ) :
    db.openRow ⟨tenantId, metricId, i⟩ cutoff =
      ((UsageDb.engine tenantId).tables metricId).liveOpen db cutoff i tier := by
  have hcursor : ((UsageDb.engine tenantId).tables metricId).fetchCursor db i =
      db.cursors.lookup ⟨tenantId, metricId, i⟩ := rfl
  rw [UsageDb.openRow, RingTables.liveOpen, hcursor]
  cases db.cursors.lookup ⟨tenantId, metricId, i⟩ with
  | none => rfl
  | some cursor =>
    have hrow : ((UsageDb.engine tenantId).tables metricId).fetchRow db i tier cursor.slot =
        (db.ring.lookup ⟨⟨tenantId, metricId, i⟩, cursor.slot⟩).map UsageDb.row := rfl
    simp only [Option.bind_eq_bind, Option.bind_some, hrow, UsageDb.fetchSlot]
    cases db.ring.lookup ⟨⟨tenantId, metricId, i⟩, cursor.slot⟩ <;> rfl

theorem filterMap_zipIdx_take {β : Type} (ts : List Tier) {n : ℕ} (hn : n ≤ ts.length)
    (f : ℕ → Option β) : (ts.zipIdx.take n).filterMap (fun t => f t.2) = (List.range n).filterMap f := by
  have hmap : (ts.zipIdx.take n).map Prod.snd = List.range n := by
    rw [List.map_take, List.zipIdx_map_snd, ← List.range_eq_range', List.take_range, min_eq_left hn]
  rw [← hmap, List.filterMap_map]
  rfl

section

variable [Zero V] [Add V] [Min V] [Max V]

theorem window_of_lookup {σ : Type} (T : RingTables σ V) (order : RowOrder V) {ts : List Tier}
    {windowSecs : ℤ} {tier : Tier} (h : ts[pickTierIdx ts windowSecs]? = some tier) (s : σ)
    (nowSecs : ℤ) :
    T.window order ts s nowSecs windowSecs = (absorbAll {}
      (order.arrange ((T.selectRows s (pickTierIdx ts windowSecs) tier).filter
          (fun row => cutoffOf nowSecs windowSecs ≤ row.bucketStart)) ++
        (ts.zipIdx.take (pickTierIdx ts windowSecs)).filterMap
          fun t => T.liveOpen s (cutoffOf nowSecs windowSecs) t.2 t.1)).intoSummary := by
  unfold RingTables.window
  dsimp only
  rw [h]

theorem Tracks.queryWindow_eq {tenantId : ℕ} {db : UsageDb (SlotAgg V)} {store : Store V}
    (h : Tracks tenantId db store) {m : MetricRow} (hm : m ∈ db.metrics) (window : ℕ) (nanos : ℤ)
    (order : RowOrder V) : db.queryWindow tenantId m.name window nanos order =
      (((UsageDb.engine tenantId).tables m.id).window order tiers db (nanos / 1000000000)
        (asI64 window)) := by
  have hfind : db.metrics.find? (fun m' => m'.name = m.name) = some m :=
    h.represents.names.find?_eq_some_iff.2 ⟨hm, rfl⟩
  have hpicked := @pickTierIdx_lt tiers (by decide) (asI64 window)
  rw [window_of_lookup _ _ (List.getElem?_eq_getElem hpicked)]
  unfold UsageDb.queryWindow
  rw [hfind, h.config]
  generalize hcutoff : cutoffOf (nanos / 1000000000) (asI64 window) = cutoff
  change (absorbAll {} (order.arrange (db.selectRows
      ⟨tenantId, m.id, UsageDb.pickTierIdx (tiers.map TierConfig.ofTier) (asI64 window)⟩
      (cutoffOf (nanos / 1000000000) (asI64 window))) ++
    (List.range (UsageDb.pickTierIdx (tiers.map TierConfig.ofTier) (asI64 window))).filterMap
      fun i => db.openRow ⟨tenantId, m.id, i⟩
        (cutoffOf (nanos / 1000000000) (asI64 window)))).intoSummary = _
  have hopen : (fun t : Tier × ℕ => db.openRow ⟨tenantId, m.id, t.2⟩ cutoff) = fun t =>
      ((UsageDb.engine tenantId).tables m.id).liveOpen db cutoff t.2 t.1 :=
    funext fun t => openRow_eq db tenantId m.id t.2 t.1 _
  rw [hcutoff, pickTierIdx_map, ← filterMap_zipIdx_take tiers hpicked.le, hopen]
  rfl

end

/-! ### A client and the hub -/

/-- The rows and the cursors of a client and those of a tenant of the hub are the same, one to one. -/
structure Corresponds (tenantId : ℕ) (db : Sqlite V) (hub : UsageDb (SlotAgg V)) : Prop where
  /-- The metrics. -/
  metrics : ∀ name kind, (∃ m ∈ db.metrics, m.name = name ∧ m.kind = kind) ↔
    ∃ m ∈ hub.metrics, m.name = name ∧ m.kind = kind
  /-- The rows of a metric. -/
  rows : ∀ m ∈ db.metrics, ∀ m' ∈ hub.metrics, m.name = m'.name → ∀ i tier,
    tiers[i]? = some tier → ∀ slot, (db.rows tier.table).lookup (m.id, slot) =
      (hub.ring.lookup ⟨⟨tenantId, m'.id, i⟩, slot⟩).map UsageDb.row
  /-- Its cursors. -/
  cursors : ∀ m ∈ db.metrics, ∀ m' ∈ hub.metrics, m.name = m'.name → ∀ i tier,
    tiers[i]? = some tier →
    db.cursors.lookup (m.id, i) = hub.cursors.lookup ⟨tenantId, m'.id, i⟩
  /-- Every row and cursor of the client is one of a metric. -/
  client : ∀ id, (∀ m ∈ db.metrics, m.id ≠ id) → ∀ i tier, tiers[i]? = some tier →
    (∀ slot, (db.rows tier.table).lookup (id, slot) = none) ∧ db.cursors.lookup (id, i) = none
  /-- Every row and cursor of the hub is one of a metric of the tenant, in one of the tiers. -/
  hub : ∀ key : CursorKey, (key.tenantId ≠ tenantId ∨ tiers.length ≤ key.tierIdx ∨
      ∀ m ∈ hub.metrics, m.id ≠ key.metricId) →
    (∀ slot, hub.ring.lookup ⟨key, slot⟩ = none) ∧ hub.cursors.lookup key = none

theorem corresponds_of_represents {tenantId : ℕ} {db : Sqlite V}
    {hub : UsageDb (SlotAgg V)} {store : Store V} (h : Sqlite.engine.Represents tiers db store)
    (h' : Tracks tenantId hub store) :
    Corresponds tenantId db hub where
  metrics := h.exists_metric_iff h'.represents
  rows _ hm _ hm' hname _ _ hi := (h.eq_of_name h'.represents hm hm' hname hi).1
  cursors _ hm _ hm' hname _ _ hi := (h.eq_of_name h'.represents hm hm' hname hi).2
  client _ hid _ _ hi := h.eq_none hid hi
  hub key hkey := by
    by_cases hother : key.tenantId ≠ tenantId ∨ tiers.length ≤ key.tierIdx
    · exact ⟨fun slot => h'.ring ⟨key, slot⟩ hother, h'.cursors key hother⟩
    · obtain ⟨htenant, htier⟩ := not_or.1 hother
      have hid := (hkey.resolve_left htenant).resolve_left htier
      obtain ⟨hrow, hcursor⟩ := h'.represents.eq_none hid
        (List.getElem?_eq_getElem (not_le.1 htier))
      obtain rfl := not_not.1 htenant
      exact ⟨fun slot => Option.map_eq_none_iff.1 (hrow slot), hcursor⟩

theorem queryWindow_alike [Zero V] [Add V] [Min V] [Max V] {tenantId : ℕ} {db : Sqlite V}
    {hub : UsageDb (SlotAgg V)} {store : Store V} (h : Sqlite.engine.Represents tiers db store)
    (h' : Tracks tenantId hub store) {P : Str → ℤ → Prop} (hstore : store.Sound P tiers)
    (order order' : RowOrder V) (name : Str) (window : ℕ) {nanos : ℤ} (hnanos : 0 ≤ nanos) :
    ∃ answer, db.queryWindow name window nanos order = .ok answer ∧
      answer.Alike (hub.queryWindow tenantId name window nanos order') ∧
      (order.Agrees order' ∨ OrderFree V →
        answer = hub.queryWindow tenantId name window nanos order') := by
  unfold Sqlite.queryWindow
  cases hfind : db.metrics.find? fun m => m.name = name with
  | none =>
    have hnone := h.lookup_eq_none (Table.find?_eq_none_iff.1 hfind)
    have hhub : hub.queryWindow tenantId name window nanos order' = .empty := by
      cases hfind' : hub.metrics.find? fun m => m.name = name with
      | none => rw [UsageDb.queryWindow, hfind']
      | some m =>
        obtain ⟨hm, rfl⟩ := h'.represents.names.find?_eq_some_iff.1 hfind'
        obtain ⟨metric, hlookup, -⟩ := h'.represents.lookup_of_mem hm
        cases hnone.symm.trans hlookup
    rw [hhub]
    exact ⟨_, rfl, ⟨rfl, rfl, rfl⟩, fun _ => rfl⟩
  | some m =>
    obtain ⟨hm, rfl⟩ := h.names.find?_eq_some_iff.1 hfind
    obtain ⟨m', hm', hname, -⟩ := (h.exists_metric_iff h'.represents m.name m.kind).1 ⟨m, hm, rfl, rfl⟩
    have hviews' := h'.represents.views m' hm'
    rw [hname] at hviews'
    have halike := Engine.window_alike Sqlite.lawful (UsageDb.lawful tenantId tiers) (by decide)
      (h.views m hm) hviews' (hstore m.name).unrepeated order order' (nanos / 1000000000)
      (asI64 window)
    rw [← hname, h'.queryWindow_eq hm']
    exact ⟨_, if_neg (not_lt.2 hnanos), halike⟩

/-- Two samples of one metric, the second before the first, and one of another. -/
def exampleSamples : List (Sample Float) :=
  [⟨"events".toList, .counter, 2, 61000000000⟩, ⟨"events".toList, .counter, 3, 5000000000⟩,
    ⟨"items".toList, .gauge, 7, 62000000000⟩]

/-- Three tenths, in three minutes. -/
def exampleTenths : List (Sample Float) :=
  [⟨"level".toList, .gauge, 0.1, 21540000000000⟩, ⟨"level".toList, .gauge, 0.2, 21600000000000⟩,
    ⟨"level".toList, .gauge, 0.3, 21660000000000⟩]

end Hub

end Wkp
