import Wkp.Core.UsageTables

/-!
# The tables of the usage store

* `Usage.Sqlite` : the tables of `.wkp/metrics.db`: the metrics, the rows of each tier in a table of its
  own, and the cursors.
* `Usage.Sqlite.record`, `Usage.Sqlite.queryWindow` : the store over these tables.
* `Usage.Sqlite.recordAll_represents` : **samples leave tables that hold the store.**
* `Usage.Sqlite.queryWindow_eq` : **queries of exact numbers are those of the store.**
-/

namespace Wkp

open Rust

namespace Usage

/-- The tables of `.wkp/metrics.db`. -/
structure Sqlite (V : Type := ℚ) where
  /-- `metrics`. -/
  metrics : List MetricRow := []
  /-- The rows of a table, by the number of a metric and a slot. -/
  rows : Str → AList (fun _ : ℕ × ℤ => Row V) := fun _ => ∅
  /-- `cursors`, by the number of a metric and the index of a tier. -/
  cursors : AList (fun _ : ℕ × ℕ => Cursor) := ∅

namespace Sqlite

variable {V : Type}

/-- `write_slot`: an upsert. -/
def writeSlot (db : Sqlite V) (table : Str) (metricId : ℕ) (slot : ℤ) (row : Row V) : Sqlite V :=
  { db with rows := Function.update db.rows table ((db.rows table).insert (metricId, slot) row) }

/-- `set_cursor`: an upsert. -/
def setCursor (db : Sqlite V) (metricId tierIdx : ℕ) (cursor : Cursor) : Sqlite V :=
  { db with cursors := db.cursors.insert (metricId, tierIdx) cursor }

/-- The statements. -/
def engine : Engine (Sqlite V) V where
  metrics := Sqlite.metrics
  tables metricId := {
    fetchRow := fun db _ tier slot => (db.rows tier.table).lookup (metricId, slot)
    writeSlot := fun _ tier slot row db => db.writeSlot tier.table metricId slot row
    fetchCursor := fun db i => db.cursors.lookup (metricId, i)
    setCursor := fun i cursor db => db.setCursor metricId i cursor
    selectRows := fun db _ tier =>
      ((db.rows tier.table).entries.filter fun e => e.1.1 = metricId).map Sigma.snd }

/-- `get_or_create_metric`: a new row has one more than the largest number. -/
def getOrCreateMetric (db : Sqlite V) (name : Str) (kind : MetricKind) :
    Except UsageError (ℕ × Sqlite V) :=
  match db.metrics.find? fun m => m.name = name with
  | some m =>
    if m.kind ≠ kind then .error (.metricKindMismatch name kind m.kind) else .ok (m.id, db)
  | none =>
    let id := (db.metrics.map MetricRow.id).foldr max 0 + 1
    .ok (id, { db with metrics := db.metrics ++ [⟨id, name, kind⟩] })

/-- `record`, in its transaction.  None is a panic. -/
def record [Add V] [Min V] [Max V] (db : Sqlite V) (s : Sample V) :
    Option (Except UsageError (Sqlite V)) :=
  if s.nanos < 0 then some (.error .time)
  else match db.getOrCreateMetric s.name s.kind with
    | .error e => some (.error e)
    | .ok (metricId, db) =>
      let step := (tiers.head?.map Tier.stepSecs).getD 0
      ((engine.tables metricId).apply tiers 0 (floorToStep s.secs step) (.single s.value) db).map .ok

/-- Record a sequence of samples.  One that is refused changes nothing. -/
def recordAll [Add V] [Min V] [Max V] : Sqlite V → List (Sample V) → Option (Sqlite V)
  | db, [] => some db
  | db, s :: ss => match record db s with
    | none => none
    | some (.error _) => recordAll db ss
    | some (.ok db) => recordAll db ss

/-- `query_window`, for a window of whole seconds. -/
def queryWindow [Zero V] [Add V] [Min V] [Max V] (db : Sqlite V) (name : Str) (window : ℕ)
    (nanos : ℤ) (order : RowOrder V := .stored) : Except UsageError (MetricSummary V) :=
  match db.metrics.find? fun m => m.name = name with
  | none => .ok .empty
  | some m =>
    if nanos < 0 then .error .time
    else .ok ((engine.tables m.id).window order tiers db (nanos / 1000000000) (asI64 window))

/-! ### The statements do what they say -/

theorem table_eq_iff {i j : ℕ} {tier tier' : Tier} (hi : tiers[i]? = some tier)
    (hj : tiers[j]? = some tier') : tier'.table = tier.table ↔ j = i := by
  have hnodup : (tiers.map Tier.table).Nodup := by decide
  constructor
  · intro h
    have hlt : j < (tiers.map Tier.table).length := by
      rw [List.length_map]
      exact (List.getElem?_eq_some_iff.1 hj).1
    refine (List.getElem?_inj hlt hnodup).1 ?_
    rw [List.getElem?_map, List.getElem?_map, hi, hj, Option.map_some, Option.map_some, h]
  · rintro rfl
    rw [Option.some.inj (hi.symm.trans hj)]

theorem lawful : (engine : Engine (Sqlite V) V).Lawful tiers where
  row_writeSlot {i j tier tier'} hi hj id id' slot slot' row db := by
    have htable := table_eq_iff hi hj
    change (Function.update db.rows tier.table _ tier'.table).lookup (id', slot') = _
    by_cases h : tier'.table = tier.table
    · rw [h, Function.update_self]
      by_cases hkey : (id', slot') = (id, slot)
      · rw [hkey, AList.lookup_insert,
          if_pos ⟨congrArg Prod.fst hkey, htable.1 h, congrArg Prod.snd hkey⟩]
      · rw [AList.lookup_insert_ne hkey, if_neg fun heq => hkey (by rw [heq.1, heq.2.2])]
        change _ = (db.rows tier'.table).lookup _
        rw [h]
    · rw [Function.update_of_ne h, if_neg fun heq => h (htable.2 heq.2.1)]
      rfl
  cursor_writeSlot _ _ _ _ _ _ _ _ := rfl
  row_setCursor _ _ _ _ _ _ _ _ := rfl
  cursor_setCursor id id' i cursor db j := by
    change (db.cursors.insert (id, i) cursor).lookup (id', j) = _
    by_cases hkey : (id', j) = (id, i)
    · rw [hkey, AList.lookup_insert, if_pos ⟨congrArg Prod.fst hkey, congrArg Prod.snd hkey⟩]
    · rw [AList.lookup_insert_ne hkey, if_neg fun heq => hkey (by rw [heq.1, heq.2])]
      rfl
  metrics_writeSlot _ _ _ _ _ _ := rfl
  metrics_setCursor _ _ _ _ := rfl
  select {i tier} _ id db rows hrows :=
    Table.perm_section (fun slot => (id, slot)) (fun _ _ h => congrArg Prod.snd h) hrows
      (fun k => k.1 = id) fun k => by
        rw [decide_eq_true_iff]
        exact ⟨fun h => ⟨k.2, by rw [← h]⟩, fun ⟨_, h⟩ => by rw [← h]⟩

/-! ### Recording -/

theorem represents_init : (engine : Engine (Sqlite V) V).Represents tiers {} ∅ where
  ids := List.nodup_nil
  names := List.nodup_nil
  kinds _ := rfl
  views _ hm := absurd hm List.not_mem_nil
  fresh _ _ := ⟨⟨fun _ => rfl, rfl⟩, ⟨fun _ => rfl, rfl⟩, ⟨fun _ => rfl, rfl⟩, trivial⟩

theorem le_foldr_max {l : List ℕ} {n : ℕ} (h : n ∈ l) : n ≤ l.foldr max 0 := by
  induction l with
  | nil => cases h
  | cons m l ih =>
    rcases List.mem_cons.1 h with rfl | h
    · exact le_max_left _ _
    · exact (ih h).trans (le_max_right _ _)

theorem getOrCreateMetric_spec {db : Sqlite V} {store : Store V} (h : engine.Represents tiers db store)
    {name : Str} {kind : MetricKind} (hkind : ∀ m ∈ db.metrics, m.name = name → m.kind = kind) :
    ∃ m db', db.getOrCreateMetric name kind = .ok (m.id, db') ∧
      engine.Created tiers db name kind db' m := by
  unfold getOrCreateMetric
  cases hfind : db.metrics.find? fun m => m.name = name with
  | some m =>
    obtain ⟨hm, hname⟩ := h.names.find?_eq_some_iff.1 hfind
    refine ⟨m, db, if_neg (not_not.2 (hkind m hm hname)), ?_⟩
    exact .found hm hname (hkind m hm hname) rfl ⟨fun _ _ _ _ _ _ => rfl, fun _ _ _ => rfl⟩
  | none =>
    refine ⟨⟨_, name, kind⟩, _, rfl, .fresh (Table.find?_eq_none_iff.1 hfind) (fun m hm => ?_) rfl
      ⟨fun _ _ _ _ _ _ => rfl, fun _ _ _ => rfl⟩⟩
    exact Nat.ne_of_lt (Nat.lt_succ_of_le (le_foldr_max (List.mem_map_of_mem hm)))

theorem record_spec [Add V] [Min V] [Max V] {db : Sqlite V} {store : Store V}
    (h : engine.Represents tiers db store) {s : Sample V} {r : Except UsageError (Store V)}
    (hrecord : Usage.record tiers store s = some r) :
    (∃ e, r = .error e ∧ db.record s = some (.error e)) ∨
      ∃ store' db', r = .ok store' ∧ db.record s = some (.ok db') ∧
        engine.Represents tiers db' store' := by
  by_cases hnanos : s.nanos < 0
  · rw [Usage.record, if_pos hnanos] at hrecord
    exact .inl ⟨.time, (Option.some.inj hrecord).symm, if_pos hnanos⟩
  · obtain ⟨m, hm, hname, hkind, rfl⟩ | ⟨hkind, store', rfl⟩ := h.record_cases hnanos hrecord
    · refine .inl ⟨_, rfl, (if_neg hnanos).trans ?_⟩
      have hfind : db.metrics.find? (fun m => m.name = s.name) = some m :=
        h.names.find?_eq_some_iff.2 ⟨hm, hname⟩
      rw [getOrCreateMetric, hfind]
      dsimp only
      rw [if_pos hkind]
    · obtain ⟨m, db₁, hget, hcreated⟩ := getOrCreateMetric_spec h hkind
      obtain ⟨db', happly, hrep⟩ := Engine.record_represents lawful h hcreated hrecord
      refine .inr ⟨store', db', rfl, (if_neg hnanos).trans ?_, hrep⟩
      rw [hget]
      dsimp only
      rw [happly, Option.map_some]

/-- **Samples leave tables that hold the store.** -/
theorem recordAll_represents [Add V] [Min V] [Max V] {db : Sqlite V} {store store' : Store V}
    (h : engine.Represents tiers db store) {ss : List (Sample V)}
    (hrecord : Usage.recordAll tiers store ss = some store') :
    ∃ db', db.recordAll ss = some db' ∧ engine.Represents tiers db' store' := by
  induction ss generalizing db store with
  | nil =>
    obtain rfl := Option.some.inj hrecord
    exact ⟨db, rfl, h⟩
  | cons s ss ih =>
    rw [Usage.recordAll] at hrecord
    cases hr : Usage.record tiers store s with
    | none =>
      rw [hr] at hrecord
      cases hrecord
    | some r =>
      rw [hr] at hrecord
      obtain ⟨e, rfl, he⟩ | ⟨store₁, db₁, rfl, hdb₁, h₁⟩ := record_spec h hr
      · obtain ⟨db', hdb', hrep⟩ := ih h hrecord
        exact ⟨db', by rw [recordAll, he]; exact hdb', hrep⟩
      · obtain ⟨db', hdb', hrep⟩ := ih h₁ hrecord
        exact ⟨db', by rw [recordAll, hdb₁]; exact hdb', hrep⟩

/-! ### Queries -/

/-- **Queries of exact numbers over the tables are queries of the store**, whatever the order of the
rows. -/
theorem queryWindow_eq {db : Sqlite} {store : Store} (h : engine.Represents tiers db store)
    {P : Str → ℤ → Prop} (hstore : store.Sound P tiers) (order : RowOrder) (name : Str) (window : ℕ)
    (nanos : ℤ) :
    db.queryWindow name window nanos order = Usage.queryWindow tiers store name window nanos := by
  unfold queryWindow Usage.queryWindow
  cases hfind : db.metrics.find? fun m => m.name = name with
  | none =>
    rw [h.lookup_eq_none (Table.find?_eq_none_iff.1 hfind)]
  | some m =>
    obtain ⟨hm, rfl⟩ := h.names.find?_eq_some_iff.1 hfind
    obtain ⟨metric, hlookup, -⟩ := h.lookup_of_mem hm
    rw [hlookup]
    dsimp only
    split_ifs
    · rfl
    · have hviews := h.views m hm
      have hrings := Store.rings_of_lookup tiers hlookup
      rw [Engine.window_eq orderFree_rat lawful (by decide) hviews (hstore m.name).unrepeated, hrings]

end Sqlite

end Usage

end Wkp
