import Wkp.Core.UsageWindow
import Wkp.Lib.Table

/-!
# The usage store over tables

The store of this module is what the tables of an engine hold: a table of metrics, rows under the
number of a metric, a tier and a slot, and cursors.

* `Usage.RowOrder` : the order in which a database has the rows of a statement.
* `Usage.RingTables` : the statements of an engine for one metric, with `apply` and `window` over them.
* `Usage.Engine.Lawful` : what an upsert changes and what it leaves.
* `Usage.Engine.Represents` : the tables hold a store.
* `Usage.Engine.apply_represents`, `Usage.Engine.window_eq` : **`apply` over the tables is that of the
  store, and so are the queries if numbers are added and compared in any order.**
* `Usage.Engine.window_alike` : what the queries of two engines have in common.
* `Usage.Engine.Created` : a metric is found or made; `Usage.Engine.record_represents` : **a sample over
  the tables is a sample of the store.**
-/

namespace Wkp

open Rust

namespace Usage

/-! ### Statements -/

/-- A row of the table of metrics. -/
structure MetricRow where
  /-- The row id. -/
  id : ℕ
  /-- The name, unique. -/
  name : Str
  /-- The kind. -/
  kind : MetricKind
  deriving DecidableEq

/-- The order in which a database has the rows of a statement that asks for none. -/
structure RowOrder (V : Type := ℚ) where
  /-- The rows in this order. -/
  arrange : List (Row V) → List (Row V)
  /-- They are the rows. -/
  perm : ∀ rows, (arrange rows).Perm rows

namespace RowOrder

variable {V : Type}

/-- The rows as they are stored. -/
def stored : RowOrder V := ⟨id, fun _ => .rfl⟩

/-- The rows from the other end. -/
def reversed : RowOrder V := ⟨List.reverse, List.reverse_perm⟩

/-- Two databases have the same rows in the same order, however they are stored. -/
def Agrees (order order' : RowOrder V) : Prop :=
  ∀ rows rows', rows.Perm rows' → order.arrange rows = order'.arrange rows'

end RowOrder

/-- Numbers that can be added and compared in any order. -/
structure OrderFree (V : Type) [Add V] [Min V] [Max V] : Prop where
  /-- Addition is commutative. -/
  add_comm : ∀ a b : V, a + b = b + a
  /-- It is associative. -/
  add_assoc : ∀ a b c : V, a + b + c = a + (b + c)
  /-- The minimum is commutative. -/
  min_comm : ∀ a b : V, min a b = min b a
  /-- It is associative. -/
  min_assoc : ∀ a b c : V, min (min a b) c = min a (min b c)
  /-- The maximum is commutative. -/
  max_comm : ∀ a b : V, max a b = max b a
  /-- It is associative. -/
  max_assoc : ∀ a b c : V, max (max a b) c = max a (max b c)

theorem orderFree_rat : OrderFree ℚ :=
  ⟨add_comm, add_assoc, min_comm, min_assoc, max_comm, max_assoc⟩

/-- The statements for the rows and the cursors of a metric, by the index of a tier. -/
structure RingTables (σ : Type) (V : Type := ℚ) where
  /-- `fetch_slot`. -/
  fetchRow : σ → ℕ → Tier → ℤ → Option (Row V)
  /-- `write_slot`. -/
  writeSlot : ℕ → Tier → ℤ → Row V → σ → σ
  /-- `fetch_cursor`. -/
  fetchCursor : σ → ℕ → Option Cursor
  /-- `set_cursor`. -/
  setCursor : ℕ → Cursor → σ → σ
  /-- All rows of a tier. -/
  selectRows : σ → ℕ → Tier → List (Row V)

namespace RingTables

variable {σ V : Type} (T : RingTables σ V)

section

variable [Add V] [Min V] [Max V]

/-- `apply`, from the tier with index `i` on.  None is a panic. -/
def apply : List Tier → ℕ → ℤ → SlotAgg V → σ → Option σ
  | [], _, _, _, _ => none
  | tier :: ts, i, bucketStart, incoming, s =>
    match T.fetchCursor s i with
    | none =>
      let slot := slotFor bucketStart tier.stepSecs tier.slots
      some (T.setCursor i ⟨slot, bucketStart⟩ (T.writeSlot i tier slot ⟨bucketStart, incoming⟩ s))
    | some cursor => do
      let existing ← T.fetchRow s i tier cursor.slot
      if cursor.bucketStart = bucketStart then
        return T.writeSlot i tier cursor.slot
          ⟨bucketStart, existing.agg.mergedWith incoming true⟩ s
      else if bucketStart < cursor.bucketStart then
        return T.writeSlot i tier cursor.slot
          ⟨cursor.bucketStart, existing.agg.mergedWith incoming false⟩ s
      else
        let s ← match ts with
          | [] => some s
          | next :: _ =>
            apply ts (i + 1) (floorToStep cursor.bucketStart next.stepSecs) existing.agg s
        let slot := slotFor bucketStart tier.stepSecs tier.slots
        return T.setCursor i ⟨slot, bucketStart⟩
          (T.writeSlot i tier slot ⟨bucketStart, incoming⟩ s)

/-- What `apply` does with the coarser tiers when a window closes. -/
def foldUp (ts : List Tier) (i : ℕ) (bucketStart : ℤ) (agg : SlotAgg V) (s : σ) : Option σ :=
  match ts with
  | [] => some s
  | next :: _ => T.apply ts i (floorToStep bucketStart next.stepSecs) agg s

theorem apply_of_cursor {tier : Tier} {ts : List Tier} {i : ℕ} {s : σ} {cursor : Cursor}
    (hc : T.fetchCursor s i = some cursor) (bucketStart : ℤ) (incoming : SlotAgg V) :
    T.apply (tier :: ts) i bucketStart incoming s =
      (T.fetchRow s i tier cursor.slot).bind fun existing =>
        if cursor.bucketStart = bucketStart then
          some (T.writeSlot i tier cursor.slot
            ⟨bucketStart, existing.agg.mergedWith incoming true⟩ s)
        else if bucketStart < cursor.bucketStart then
          some (T.writeSlot i tier cursor.slot
            ⟨cursor.bucketStart, existing.agg.mergedWith incoming false⟩ s)
        else (T.foldUp ts (i + 1) cursor.bucketStart existing.agg s).map fun s =>
          T.setCursor i ⟨slotFor bucketStart tier.stepSecs tier.slots, bucketStart⟩
            (T.writeSlot i tier (slotFor bucketStart tier.stepSecs tier.slots)
              ⟨bucketStart, incoming⟩ s) := by
  rw [apply, hc]
  dsimp only
  cases T.fetchRow s i tier cursor.slot with
  | none => rfl
  | some existing =>
    simp only [Option.bind_eq_bind, Option.bind_some]
    split_ifs
    · rfl
    · rfl
    · cases ts with
      | nil => rfl
      | cons next ts => exact Option.map_eq_bind.symm

end

/-- The open window of a tier, unless it is older than the cutoff. -/
def liveOpen (s : σ) (cutoff : ℤ) (i : ℕ) (tier : Tier) : Option (Row V) := do
  let cursor ← T.fetchCursor s i
  if cutoff ≤ cursor.bucketStart then
    let row ← T.fetchRow s i tier cursor.slot
    return ⟨cursor.bucketStart, row.agg⟩
  else none

/-- `query_window`, once the metric is found. -/
def window [Zero V] [Add V] [Min V] [Max V] (order : RowOrder V) (ts : List Tier) (s : σ)
    (nowSecs windowSecs : ℤ) : MetricSummary V :=
  let cutoff := cutoffOf nowSecs windowSecs
  let picked := pickTierIdx ts windowSecs
  match ts[picked]? with
  | none => .empty
  | some tier =>
    let rows := order.arrange ((T.selectRows s picked tier).filter fun row =>
      cutoff ≤ row.bucketStart)
    let finer := (ts.zipIdx.take picked).filterMap fun t => T.liveOpen s cutoff t.2 t.1
    (absorbAll {} (rows ++ finer)).intoSummary

end RingTables

/-! ### Engines -/

/-- An engine: its metrics, and the statements for each of them by its row id. -/
structure Engine (σ : Type) (V : Type := ℚ) where
  /-- The table of metrics. -/
  metrics : σ → List MetricRow
  /-- The statements. -/
  tables : ℕ → RingTables σ V

namespace Engine

variable {σ V : Type} (E : Engine σ V)

/-- An upsert changes its row or its cursor, and nothing else. -/
structure Lawful (all : List Tier) : Prop where
  /-- Rows after a row is written. -/
  row_writeSlot : ∀ {i j : ℕ} {tier tier' : Tier}, all[i]? = some tier → all[j]? = some tier' →
    ∀ id id' slot slot' row s,
      (E.tables id').fetchRow ((E.tables id).writeSlot i tier slot row s) j tier' slot' =
        if id' = id ∧ j = i ∧ slot' = slot then some row else (E.tables id').fetchRow s j tier' slot'
  /-- Cursors after a row is written. -/
  cursor_writeSlot : ∀ id id' i tier slot row s j,
    (E.tables id').fetchCursor ((E.tables id).writeSlot i tier slot row s) j =
      (E.tables id').fetchCursor s j
  /-- Rows after a cursor is set. -/
  row_setCursor : ∀ id id' i c s j tier slot,
    (E.tables id').fetchRow ((E.tables id).setCursor i c s) j tier slot =
      (E.tables id').fetchRow s j tier slot
  /-- Cursors after a cursor is set. -/
  cursor_setCursor : ∀ id id' i c s j,
    (E.tables id').fetchCursor ((E.tables id).setCursor i c s) j =
      if id' = id ∧ j = i then some c else (E.tables id').fetchCursor s j
  /-- The metrics after a row is written. -/
  metrics_writeSlot : ∀ id i tier slot row s,
    E.metrics ((E.tables id).writeSlot i tier slot row s) = E.metrics s
  /-- The metrics after a cursor is set. -/
  metrics_setCursor : ∀ id i c s, E.metrics ((E.tables id).setCursor i c s) = E.metrics s
  /-- All rows of a tier. -/
  select : ∀ {i : ℕ} {tier : Tier}, all[i]? = some tier → ∀ id s (rows : AList fun _ : ℤ => Row V),
    (∀ slot, (E.tables id).fetchRow s i tier slot = rows.lookup slot) →
      ((E.tables id).selectRows s i tier).Perm (rows.entries.map Sigma.snd)

/-- The tables hold the rings of a metric, from the tier with index `i` on. -/
def Views (s : σ) (id : ℕ) : ℕ → List Tier → List (Ring V) → Prop
  | _, [], [] => True
  | i, tier :: ts, ring :: rings =>
    ((∀ slot, (E.tables id).fetchRow s i tier slot = ring.rows.lookup slot) ∧
      (E.tables id).fetchCursor s i = ring.cursor) ∧ Views s id (i + 1) ts rings
  | _, _, _ => False

/-- The tables hold a store. -/
structure Represents (all : List Tier) (s : σ) (store : Store V) : Prop where
  /-- The row ids are distinct. -/
  ids : Table.Keyed MetricRow.id (E.metrics s)
  /-- The names are distinct. -/
  names : Table.Keyed MetricRow.name (E.metrics s)
  /-- The metrics. -/
  kinds : ∀ name, ((E.metrics s).find? fun m => m.name = name).map MetricRow.kind =
    (store.lookup name).map Metric.kind
  /-- The rings. -/
  views : ∀ m ∈ E.metrics s, E.Views s m.id 0 all (store.rings all m.name)
  /-- A row id that is not used has no rows. -/
  fresh : ∀ id, (∀ m ∈ E.metrics s, m.id ≠ id) → E.Views s id 0 all (all.map fun _ => {})

/-- Two states have the same rows and cursors, where it says so. -/
structure Agree (all : List Tier) (at_ : ℕ → ℕ → Prop) (s s' : σ) : Prop where
  /-- The rows. -/
  row : ∀ id i tier slot, all[i]? = some tier → at_ id i →
    (E.tables id).fetchRow s' i tier slot = (E.tables id).fetchRow s i tier slot
  /-- The cursors. -/
  cursor : ∀ id i, at_ id i → (E.tables id).fetchCursor s' i = (E.tables id).fetchCursor s i

variable {E} {all : List Tier}

theorem Agree.trans {p : ℕ → ℕ → Prop} {s s₁ s₂ : σ} (h : E.Agree all p s s₁)
    (h' : E.Agree all p s₁ s₂) : E.Agree all p s s₂ where
  row id i tier slot hi hp := (h'.row id i tier slot hi hp).trans (h.row id i tier slot hi hp)
  cursor id i hp := (h'.cursor id i hp).trans (h.cursor id i hp)

theorem Agree.mono {p q : ℕ → ℕ → Prop} {s s' : σ} (h : E.Agree all p s s')
    (hq : ∀ id i, q id i → p id i) : E.Agree all q s s' where
  row id i tier slot hi hp := h.row id i tier slot hi (hq id i hp)
  cursor id i hp := h.cursor id i (hq id i hp)

theorem getElem?_of_drop_eq_cons {α : Type*} {l ts : List α} {t : α} {i : ℕ}
    (h : l.drop i = t :: ts) : l[i]? = some t ∧ l.drop (i + 1) = ts := by
  constructor
  · rw [← Nat.add_zero i, ← List.getElem?_drop, h, List.getElem?_cons_zero]
  · rw [← List.drop_drop, h, List.drop_one, List.tail_cons]

theorem Views.of_agree {p : ℕ → ℕ → Prop} {s s' : σ} (h : E.Agree all p s s') {id i : ℕ}
    {ts : List Tier} {rings : List (Ring V)} (hts : all.drop i = ts) (hp : ∀ j, i ≤ j → p id j)
    (hviews : E.Views s id i ts rings) : E.Views s' id i ts rings := by
  induction ts generalizing i rings with
  | nil =>
    cases rings with
    | nil => trivial
    | cons ring rings => exact hviews.elim
  | cons tier ts ih =>
    cases rings with
    | nil => exact hviews.elim
    | cons ring rings =>
      obtain ⟨htier, hdrop⟩ := getElem?_of_drop_eq_cons hts
      obtain ⟨⟨hrow, hcursor⟩, hrest⟩ := hviews
      refine ⟨⟨fun slot => ?_, ?_⟩, ih hdrop (fun j hj => hp j (Nat.le_of_succ_le hj)) hrest⟩
      · rw [h.row id i tier slot htier (hp i le_rfl), hrow]
      · rw [h.cursor id i (hp i le_rfl), hcursor]

/-! ### Applying -/

theorem apply_of_cursor_eq_none [Add V] [Min V] [Max V] {tier : Tier} {ts : List Tier} {ring : Ring V}
    {rings : List (Ring V)} (hc : ring.cursor = none) (bucketStart : ℤ) (incoming : SlotAgg V) :
    Usage.apply (tier :: ts) (ring :: rings) bucketStart incoming =
      some (ring.openWindow tier bucketStart incoming :: rings) := by
  rw [Usage.apply, Ring.branch, hc]

theorem apply_of_cursor [Add V] [Min V] [Max V] {tier : Tier} {ts : List Tier} {ring : Ring V}
    {rings : List (Ring V)} {cursor : Cursor} (hc : ring.cursor = some cursor) (bucketStart : ℤ)
    (incoming : SlotAgg V) :
    Usage.apply (tier :: ts) (ring :: rings) bucketStart incoming =
      (ring.rows.lookup cursor.slot).bind fun existing =>
        if cursor.bucketStart = bucketStart then
          some (ring.writeSlot cursor.slot bucketStart
            (existing.agg.mergedWith incoming true) :: rings)
        else if bucketStart < cursor.bucketStart then
          some (ring.writeSlot cursor.slot cursor.bucketStart
            (existing.agg.mergedWith incoming false) :: rings)
        else (foldUp ts rings cursor.bucketStart existing.agg).map
          (ring.openWindow tier bucketStart incoming :: ·) := by
  rw [Usage.apply, Ring.branch, hc]
  dsimp only
  split_ifs
  · rfl
  · rfl
  · dsimp only
    cases ring.rows.lookup cursor.slot with
    | none => rfl
    | some existing =>
      cases ts with
      | nil => rfl
      | cons next ts => exact Option.map_eq_bind.symm

section

variable (hE : E.Lawful all)

include hE

theorem agree_writeSlot (id : ℕ) {i : ℕ} {tier : Tier} (hi : all[i]? = some tier) (slot : ℤ)
    (row : Row V) (s : σ) : E.Agree all (fun id' j => id' ≠ id ∨ j ≠ i) s
      ((E.tables id).writeSlot i tier slot row s) where
  row id' j tier' slot' hj hne := by
    rw [hE.row_writeSlot hi hj, if_neg]
    rintro ⟨rfl, rfl, -⟩
    rcases hne with hne | hne <;> exact hne rfl
  cursor id' j _ := hE.cursor_writeSlot id id' i tier slot row s j

theorem agree_setCursor (id i : ℕ) (c : Cursor) (s : σ) :
    E.Agree all (fun id' j => id' ≠ id ∨ j ≠ i) s ((E.tables id).setCursor i c s) where
  row id' j tier' slot' _ _ := hE.row_setCursor id id' i c s j tier' slot'
  cursor id' j hne := by
    rw [hE.cursor_setCursor, if_neg]
    rintro ⟨rfl, rfl⟩
    rcases hne with hne | hne <;> exact hne rfl

theorem views_writeSlot {s : σ} {id i : ℕ} {tier : Tier} {ts : List Tier} {ring : Ring V}
    {rings : List (Ring V)} (hts : all.drop i = tier :: ts)
    (hviews : E.Views s id i (tier :: ts) (ring :: rings)) (slot bucketStart : ℤ) (agg : SlotAgg V) :
    E.Views ((E.tables id).writeSlot i tier slot ⟨bucketStart, agg⟩ s) id i (tier :: ts)
      (ring.writeSlot slot bucketStart agg :: rings) := by
  obtain ⟨hi, hdrop⟩ := getElem?_of_drop_eq_cons hts
  obtain ⟨⟨hrow, hcursor⟩, hrest⟩ := hviews
  refine ⟨⟨fun slot' => ?_, ?_⟩, ?_⟩
  · rw [hE.row_writeSlot hi hi, hrow, Ring.writeSlot]
    by_cases hslot : slot' = slot
    · rw [hslot, if_pos ⟨rfl, rfl, rfl⟩, AList.lookup_insert]
    · rw [if_neg fun h => hslot h.2.2, AList.lookup_insert_ne hslot]
  · rw [hE.cursor_writeSlot]
    exact hcursor
  · exact hrest.of_agree (agree_writeSlot hE id hi _ _ _) hdrop
      fun j hj => .inr (Nat.ne_of_gt (Nat.lt_of_succ_le hj))

theorem views_setCursor {s : σ} {id i : ℕ} {tier : Tier} {ts : List Tier} {ring : Ring V}
    {rings : List (Ring V)} (hts : all.drop i = tier :: ts)
    (hviews : E.Views s id i (tier :: ts) (ring :: rings)) (slot bucketStart : ℤ) :
    E.Views ((E.tables id).setCursor i ⟨slot, bucketStart⟩ s) id i (tier :: ts)
      (ring.setCursor slot bucketStart :: rings) := by
  obtain ⟨hi, hdrop⟩ := getElem?_of_drop_eq_cons hts
  obtain ⟨⟨hrow, hcursor⟩, hrest⟩ := hviews
  refine ⟨⟨fun slot' => ?_, ?_⟩, ?_⟩
  · rw [hE.row_setCursor]
    exact hrow slot'
  · rw [hE.cursor_setCursor, if_pos ⟨rfl, rfl⟩, Ring.setCursor]
  · exact hrest.of_agree (agree_setCursor hE id i _ _) hdrop
      fun j hj => .inr (Nat.ne_of_gt (Nat.lt_of_succ_le hj))

theorem views_openWindow {s : σ} {id i : ℕ} {tier : Tier} {ts : List Tier} {ring : Ring V}
    {rings : List (Ring V)} (hts : all.drop i = tier :: ts)
    (hviews : E.Views s id i (tier :: ts) (ring :: rings)) (bucketStart : ℤ) (agg : SlotAgg V) :
    E.Views ((E.tables id).setCursor i ⟨slotFor bucketStart tier.stepSecs tier.slots, bucketStart⟩
      ((E.tables id).writeSlot i tier (slotFor bucketStart tier.stepSecs tier.slots)
        ⟨bucketStart, agg⟩ s)) id i (tier :: ts) (ring.openWindow tier bucketStart agg :: rings) :=
  views_setCursor hE hts (views_writeSlot hE hts hviews _ _ _) _ _

theorem agree_openWindow (id : ℕ) {i : ℕ} {tier : Tier} (hi : all[i]? = some tier) (slot : ℤ)
    (c : Cursor) (row : Row V) (s : σ) : E.Agree all (fun id' j => id' ≠ id ∨ j < i) s
      ((E.tables id).setCursor i c ((E.tables id).writeSlot i tier slot row s)) :=
  ((agree_writeSlot hE id hi slot row s).trans (agree_setCursor hE id i c _)).mono
    fun _ _ h => h.imp_right Nat.ne_of_lt

/-- **`apply` over the tables is `apply` over the rings**, and changes nothing else. -/
theorem apply_views [Add V] [Min V] [Max V] {s : σ} {id i : ℕ} {ts : List Tier}
    {rings rings' : List (Ring V)} (hts : all.drop i = ts) (hviews : E.Views s id i ts rings)
    {bucketStart : ℤ} {incoming : SlotAgg V} (happly : Usage.apply ts rings bucketStart incoming = some rings') :
    ∃ s', (E.tables id).apply ts i bucketStart incoming s = some s' ∧
      E.Views s' id i ts rings' ∧ E.metrics s' = E.metrics s ∧
      E.Agree all (fun id' j => id' ≠ id ∨ j < i) s s' := by
  have hmetrics : ∀ i tier slot row c s, E.metrics ((E.tables id).setCursor i c
      ((E.tables id).writeSlot i tier slot row s)) = E.metrics s := fun i tier slot row c s => by
    rw [hE.metrics_setCursor, hE.metrics_writeSlot]
  induction ts generalizing i rings rings' bucketStart incoming s with
  | nil =>
    rw [Usage.apply] at happly
    cases happly
    all_goals simp
  | cons tier ts ih =>
    cases rings with
    | nil => exact hviews.elim
    | cons ring rings =>
      obtain ⟨hi, hdrop⟩ := getElem?_of_drop_eq_cons hts
      have hrow := hviews.1.1
      have hcursor := hviews.1.2
      cases hc : ring.cursor with
      | none =>
        rw [apply_of_cursor_eq_none hc] at happly
        obtain rfl := Option.some.inj happly
        rw [RingTables.apply, hcursor, hc]
        exact ⟨_, rfl, views_openWindow hE hts hviews _ _, hmetrics _ _ _ _ _ s,
          agree_openWindow hE id hi _ _ _ s⟩
      | some cursor =>
        rw [apply_of_cursor hc] at happly
        obtain ⟨existing, hr, happly⟩ := Option.bind_eq_some_iff.1 happly
        rw [RingTables.apply_of_cursor _ (hcursor.trans hc), hrow, hr]
        have hagree : ∀ row, E.Agree all (fun id' j => id' ≠ id ∨ j < i) s
            ((E.tables id).writeSlot i tier cursor.slot row s) := fun row =>
          (agree_writeSlot hE id hi _ row s).mono fun _ _ h => h.imp_right Nat.ne_of_lt
        by_cases hsame : cursor.bucketStart = bucketStart
        · rw [if_pos hsame] at happly
          obtain rfl := Option.some.inj happly
          exact ⟨_, if_pos hsame, views_writeSlot hE hts hviews _ _ _,
            hE.metrics_writeSlot _ _ _ _ _ s, hagree _⟩
        · rw [if_neg hsame] at happly
          by_cases hlate : bucketStart < cursor.bucketStart
          · rw [if_pos hlate] at happly
            obtain rfl := Option.some.inj happly
            exact ⟨_, (if_neg hsame).trans (if_pos hlate), views_writeSlot hE hts hviews _ _ _,
              hE.metrics_writeSlot _ _ _ _ _ s, hagree _⟩
          · -- the window closes: the coarser tiers come first
            rw [if_neg hlate] at happly
            obtain ⟨rings₁, hup, rfl⟩ := Option.map_eq_some_iff.1 happly
            have hfold : ∃ s₁,
                (E.tables id).foldUp ts (i + 1) cursor.bucketStart existing.agg s = some s₁ ∧
                E.Views s₁ id (i + 1) ts rings₁ ∧ E.metrics s₁ = E.metrics s ∧
                E.Agree all (fun id' j => id' ≠ id ∨ j < i + 1) s s₁ := by
              cases ts with
              | nil =>
                obtain rfl := Option.some.inj hup
                exact ⟨s, rfl, hviews.2, rfl, ⟨fun _ _ _ _ _ _ => rfl, fun _ _ _ => rfl⟩⟩
              | cons next ts => exact ih hdrop hviews.2 hup
            obtain ⟨s₁, hs₁, hviews₁, hmetrics₁, hagree₁⟩ := hfold
            have hviews' : E.Views s₁ id i (tier :: ts) (ring :: rings₁) := by
              refine ⟨⟨fun slot => ?_, ?_⟩, hviews₁⟩
              · rw [hagree₁.row id i tier slot hi (.inr (Nat.lt_succ_self i)), hrow]
              · rw [hagree₁.cursor id i (.inr (Nat.lt_succ_self i)), hcursor]
            refine ⟨_, ?_, views_openWindow hE hts hviews' _ _, (hmetrics _ _ _ _ _ s₁).trans hmetrics₁,
              (hagree₁.mono fun _ _ h => h.imp_right Nat.lt_succ_of_lt).trans
                (agree_openWindow hE id hi _ _ _ s₁)⟩
            exact (if_neg hsame).trans ((if_neg hlate).trans (by rw [hs₁]; rfl))

/-- **`apply` for a metric over the tables is `apply` for it in the store.** -/
theorem apply_represents [Add V] [Min V] [Max V] {s : σ} {store : Store V}
    (h : E.Represents all s store) {m : MetricRow} (hm : m ∈ E.metrics s)
    {bucketStart : ℤ} {incoming : SlotAgg V} {rings' : List (Ring V)}
    (happly : Usage.apply all (store.rings all m.name) bucketStart incoming = some rings') :
    ∃ s', (E.tables m.id).apply all 0 bucketStart incoming s = some s' ∧
      E.Represents all s' (store.insert m.name ⟨m.kind, rings'⟩) := by
  obtain ⟨s', hs', hviews, hmetrics, hagree⟩ := apply_views hE (List.drop_zero) (h.views m hm) happly
  -- another metric has another number, and its rows and cursors are as they were
  have hother : ∀ id, id ≠ m.id → ∀ rings, E.Views s id 0 all rings → E.Views s' id 0 all rings :=
    fun id hid rings hv => hv.of_agree hagree List.drop_zero fun j _ => .inl hid
  refine ⟨s', hs', ?_⟩
  constructor
  case ids => rw [hmetrics]; exact h.ids
  case names => rw [hmetrics]; exact h.names
  case kinds =>
    intro name
    rw [hmetrics]
    by_cases hname : name = m.name
    · rw [hname, h.names.find?_eq_some_iff.2 ⟨hm, rfl⟩, AList.lookup_insert]
      rfl
    · rw [AList.lookup_insert_ne hname]
      exact h.kinds name
  case views =>
    intro m' hm'
    rw [hmetrics] at hm'
    rw [Store.rings_insert]
    split_ifs with hname
    · rw [h.names.eq_of_key_eq hm' hm hname]
      exact hviews
    · exact hother m'.id (fun hid => hname (by rw [h.ids.eq_of_key_eq hm' hm hid])) _
        (h.views m' hm')
  case fresh =>
    intro id hid
    rw [hmetrics] at hid
    exact hother id (fun heq => hid m hm heq.symm) _ (h.fresh id hid)

omit hE in
theorem create_represents {s s' : σ} {store : Store V} (h : E.Represents all s store) {name : Str}
    {kind : MetricKind} {id : ℕ} (hname : ∀ m ∈ E.metrics s, m.name ≠ name)
    (hid : ∀ m ∈ E.metrics s, m.id ≠ id) (hmetrics : E.metrics s' = E.metrics s ++ [⟨id, name, kind⟩])
    (hagree : E.Agree all (fun _ _ => True) s s') :
    E.Represents all s' (store.insert name ⟨kind, all.map fun _ => {}⟩) := by
  -- the rows and cursors of the other metrics are as they were
  have hsame : ∀ id rings, E.Views s id 0 all rings → E.Views s' id 0 all rings :=
    fun id rings hv => hv.of_agree hagree List.drop_zero fun _ _ => trivial
  constructor
  case ids => rw [hmetrics]; exact Table.keyed_concat h.ids hid
  case names => rw [hmetrics]; exact Table.keyed_concat h.names hname
  case kinds =>
    intro name'
    rw [hmetrics, List.find?_append]
    by_cases heq : name' = name
    · subst heq
      rw [Table.find?_eq_none_iff.2 hname, AList.lookup_insert]
      simp
    · rw [AList.lookup_insert_ne heq, ← h.kinds name']
      congr 1
      simp [Ne.symm heq]
  case views =>
    intro m hm
    rw [Store.rings_insert]
    rw [hmetrics] at hm
    rcases List.mem_append.1 hm with hm | hm
    · rw [if_neg (hname m hm)]
      exact hsame _ _ (h.views m hm)
    · obtain rfl := List.mem_singleton.1 hm
      rw [if_pos rfl]
      exact hsame _ _ (h.fresh id hid)
  case fresh =>
    intro id' hid'
    refine hsame _ _ (h.fresh id' fun m hm => hid' m ?_)
    rw [hmetrics]
    exact List.mem_append_left _ hm

end

/-! ### Recording -/

/-- The metric of a name, of the right kind: it was there, or is made with a new number. -/
inductive Created (E : Engine σ V) (all : List Tier) (s : σ) (name : Str) (kind : MetricKind) :
    σ → MetricRow → Prop
  | found {s' : σ} {m : MetricRow} (hm : m ∈ E.metrics s) (hname : m.name = name)
      (hkind : m.kind = kind) (hmetrics : E.metrics s' = E.metrics s)
      (hagree : E.Agree all (fun _ _ => True) s s') : Created E all s name kind s' m
  | fresh {s' : σ} {id : ℕ} (hname : ∀ m ∈ E.metrics s, m.name ≠ name)
      (hid : ∀ m ∈ E.metrics s, m.id ≠ id)
      (hmetrics : E.metrics s' = E.metrics s ++ [⟨id, name, kind⟩])
      (hagree : E.Agree all (fun _ _ => True) s s') :
      Created E all s name kind s' ⟨id, name, kind⟩

/-- Tables with the same metrics, rows and cursors hold the same store. -/
theorem Represents.of_agree {s s' : σ} {store : Store V} (h : E.Represents all s store)
    (hmetrics : E.metrics s' = E.metrics s) (hagree : E.Agree all (fun _ _ => True) s s') :
    E.Represents all s' store where
  ids := by rw [hmetrics]; exact h.ids
  names := by rw [hmetrics]; exact h.names
  kinds name := by rw [hmetrics]; exact h.kinds name
  views m hm := by
    rw [hmetrics] at hm
    exact (h.views m hm).of_agree hagree List.drop_zero fun _ _ => trivial
  fresh id hid := by
    rw [hmetrics] at hid
    exact (h.fresh id hid).of_agree hagree List.drop_zero fun _ _ => trivial

theorem Represents.lookup_of_mem {s : σ} {store : Store V} (h : E.Represents all s store)
    {m : MetricRow} (hm : m ∈ E.metrics s) :
    ∃ metric, store.lookup m.name = some metric ∧ metric.kind = m.kind := by
  have hkinds := h.kinds m.name
  rw [h.names.find?_eq_some_iff.2 ⟨hm, rfl⟩, Option.map_some, eq_comm, Option.map_eq_some_iff] at hkinds
  exact hkinds

theorem Represents.lookup_eq_none {s : σ} {store : Store V} (h : E.Represents all s store) {name : Str}
    (hname : ∀ m ∈ E.metrics s, m.name ≠ name) : store.lookup name = none := by
  have hkinds := h.kinds name
  rw [Table.find?_eq_none_iff.2 hname, Option.map_none, eq_comm, Option.map_eq_none_iff] at hkinds
  exact hkinds

/-- A sample is refused by its kind, or else by none of the metrics. -/
theorem Represents.record_cases [Add V] [Min V] [Max V] {s : σ} {store : Store V}
    (h : E.Represents all s store) {sample : Sample V} (hnanos : ¬ sample.nanos < 0)
    {r : Except UsageError (Store V)} (hrecord : record all store sample = some r) :
    (∃ m ∈ E.metrics s, m.name = sample.name ∧ m.kind ≠ sample.kind ∧
      r = .error (.metricKindMismatch sample.name sample.kind m.kind)) ∨
      ((∀ m ∈ E.metrics s, m.name = sample.name → m.kind = sample.kind) ∧ ∃ store', r = .ok store') := by
  rw [record, if_neg hnanos] at hrecord
  by_cases hm : ∃ m ∈ E.metrics s, m.name = sample.name
  · obtain ⟨m, hm, hname⟩ := hm
    obtain ⟨metric, hlookup, hmetric⟩ := h.lookup_of_mem hm
    rw [← hname, getOrCreateMetric_of_lookup all hlookup, hmetric] at hrecord
    by_cases hkind : m.kind = sample.kind
    · rw [if_neg (not_not.2 hkind)] at hrecord
      obtain ⟨rings, -, rfl⟩ := Option.map_eq_some_iff.1 hrecord
      refine .inr ⟨fun m' hm' hname' => ?_, _, rfl⟩
      rw [h.names.eq_of_key_eq hm' hm (hname'.trans hname.symm), hkind]
    · rw [if_pos hkind] at hrecord
      refine .inl ⟨m, hm, hname, hkind, ?_⟩
      rw [← hname]
      exact (Option.some.inj hrecord).symm
  · have hnone : ∀ m ∈ E.metrics s, m.name ≠ sample.name := fun m hmem hname => hm ⟨m, hmem, hname⟩
    rw [getOrCreateMetric_of_lookup_eq_none all (h.lookup_eq_none hnone)] at hrecord
    obtain ⟨rings, -, rfl⟩ := Option.map_eq_some_iff.1 hrecord
    exact .inr ⟨fun m hm hname => absurd hname (hnone m hm), _, rfl⟩

/-- **A sample over the tables is a sample of the store.** -/
theorem record_represents [Add V] [Min V] [Max V] (hE : E.Lawful all) {s s₁ : σ}
    {store store' : Store V} (h : E.Represents all s store) {sample : Sample V} {m : MetricRow}
    (hcreated : E.Created all s sample.name sample.kind s₁ m)
    (hrecord : record all store sample = some (.ok store')) :
    ∃ s', (E.tables m.id).apply all 0
        (floorToStep sample.secs ((all.head?.map Tier.stepSecs).getD 0)) (.single sample.value) s₁ =
          some s' ∧ E.Represents all s' store' := by
  rw [record] at hrecord
  split_ifs at hrecord with hnanos
  · cases hrecord
  -- the metric was there, or its row is new and its rings are empty
  cases hcreated with
  | found hm hname hkind hmetrics hagree =>
    obtain ⟨metric, hlookup, hmetric⟩ := h.lookup_of_mem hm
    have hrings := Store.rings_of_lookup all hlookup
    rw [← hname, getOrCreateMetric_of_lookup all hlookup,
      if_neg (not_not.2 (hmetric.trans hkind))] at hrecord
    dsimp only at hrecord
    obtain ⟨rings', happly, hok⟩ := Option.map_eq_some_iff.1 hrecord
    cases hok
    rw [← hrings] at happly
    obtain ⟨s', hs', hrep⟩ := apply_represents hE (h.of_agree hmetrics hagree)
      (by rw [hmetrics]; exact hm) happly
    refine ⟨s', hs', ?_⟩
    rwa [← hmetric] at hrep
  | fresh hname hid hmetrics hagree =>
    have hlookup := h.lookup_eq_none hname
    rw [getOrCreateMetric_of_lookup_eq_none all hlookup] at hrecord
    dsimp only at hrecord
    obtain ⟨rings', happly, hok⟩ := Option.map_eq_some_iff.1 hrecord
    cases hok
    have hcreate := create_represents h hname hid hmetrics hagree
    obtain ⟨s', hs', hrep⟩ := apply_represents hE hcreate
      (by rw [hmetrics]; exact List.mem_append_right _ (List.mem_singleton.2 rfl))
      (by rw [Store.rings_insert, if_pos rfl]; exact happly)
    refine ⟨s', hs', ?_⟩
    rwa [AList.insert_insert] at hrep

end Engine

/-! ### Queries -/

section

variable {V : Type}

/-- Two rows of one start are one row. -/
def Ring.Unrepeated (ring : Ring V) : Prop :=
  ∀ slot slot' row row', ring.rows.lookup slot = some row → ring.rows.lookup slot' = some row' →
    row.bucketStart = row'.bucketStart → row = row'

theorem Consistent.unrepeated {P : ℤ → Prop} {ts : List Tier} {rings : List (Ring V)}
    (h : Consistent P ts rings) : ∀ ring ∈ rings, ring.Unrepeated := by
  induction ts generalizing rings with
  | nil =>
    cases rings with
    | nil => exact fun ring hring => absurd hring List.not_mem_nil
    | cons ring rings => exact h.elim
  | cons tier ts ih =>
    cases rings with
    | nil => exact h.elim
    | cons ring rings =>
      refine List.forall_mem_cons.2 ⟨fun slot slot' row row' hrow hrow' heq => ?_, ih h.2.2⟩
      have hslot : slot = slot' := by
        rw [(h.1.row slot row hrow).1, (h.1.row slot' row' hrow').1, heq]
      rw [hslot, hrow'] at hrow
      exact (Option.some.inj hrow).symm

theorem Ring.Unrepeated.live {ring : Ring V} (h : ring.Unrepeated) (cutoff : ℤ) :
    ∀ row ∈ ring.live cutoff, ∀ row' ∈ ring.live cutoff,
      row.bucketStart = row'.bucketStart → row = row' := by
  intro row hr row' hr' heq
  obtain ⟨e, he, rfl⟩ := List.mem_map.1 (List.mem_of_mem_filter hr)
  obtain ⟨e', he', rfl⟩ := List.mem_map.1 (List.mem_of_mem_filter hr')
  exact h e.1 e'.1 e.2 e'.2 (AList.mem_lookup_iff.2 he) (AList.mem_lookup_iff.2 he') heq

/-- What two summaries have in common when rows are absorbed in another order. -/
structure MetricSummary.Alike (m m' : MetricSummary V) : Prop where
  /-- The number of samples. -/
  n : m.n = m'.n
  /-- The latest of them. -/
  last : m.last = m'.last
  /-- The start of the bucket that has it. -/
  lastAt : m.lastAt = m'.lastAt

/-- An operation that can be applied in any order, from its first operand on. -/
theorem rightCommutative_elim {α : Type} {op : V → V → V} (hcomm : ∀ a b, op a b = op b a)
    (hassoc : ∀ a b c, op (op a b) c = op a (op b c)) (f : α → V) :
    RightCommutative fun (m : Option V) a => some (m.elim (f a) (op · (f a))) := by
  refine ⟨fun m a b => congrArg some ?_⟩
  cases m with
  | none => exact hcomm _ _
  | some v =>
    calc op (op v (f a)) (f b)
        = op v (op (f a) (f b)) := hassoc _ _ _
      _ = op v (op (f b) (f a)) := by rw [hcomm (f a)]
      _ = op (op v (f b)) (f a) := (hassoc _ _ _).symm

variable [Zero V]

theorem Latest.alike {rows rows' : List (Row V)} {acc acc' : WindowAcc V} (h : Latest rows acc)
    (h' : Latest rows' acc') (hperm : rows.Perm rows')
    (hone : ∀ row ∈ rows, ∀ row' ∈ rows, row.bucketStart = row'.bucketStart → row = row') :
    acc.intoSummary.Alike acc'.intoSummary := by
  have hsame := h.of_perm hperm
  have hlast : acc.last = acc'.last ∧ acc.lastAt = acc'.lastAt := by
    rcases hsame.last with ⟨rfl, hl, ha⟩ | ⟨row, hrow, hle, hl, ha⟩
    · rcases h'.last with ⟨-, hl', ha'⟩ | ⟨row', hrow', -⟩
      · exact ⟨hl.trans hl'.symm, ha.trans ha'.symm⟩
      · exact absurd hrow' List.not_mem_nil
    · rcases h'.last with ⟨rfl, -⟩ | ⟨row', hrow', hle', hl', ha'⟩
      · exact absurd hrow List.not_mem_nil
      · obtain rfl : row = row' := hone row (hperm.mem_iff.2 hrow) row' (hperm.mem_iff.2 hrow')
          (le_antisymm (hle' row hrow) (hle row' hrow'))
        exact ⟨hl.trans hl'.symm, ha.trans ha'.symm⟩
  exact ⟨hsame.n.trans h'.n.symm, hlast.1, hlast.2⟩

variable [Add V] [Min V] [Max V]

theorem alike_absorbAll {acc acc' : WindowAcc V} (h : acc.intoSummary.Alike acc'.intoSummary)
    (rows : List (Row V)) :
    (absorbAll acc rows).intoSummary.Alike (absorbAll acc' rows).intoSummary := by
  induction rows generalizing acc acc' with
  | nil => exact h
  | cons row rows ih =>
    obtain ⟨hn, hlast, hlastAt⟩ := h
    have hn : acc.n = acc'.n := hn
    have hlast : acc.last = acc'.last := hlast
    have hlastAt : acc.lastAt = acc'.lastAt := hlastAt
    exact ih ⟨by simp [WindowAcc.absorb, WindowAcc.intoSummary, hn],
      by simp [WindowAcc.absorb, WindowAcc.intoSummary, hlast, hlastAt],
      by simp [WindowAcc.absorb, WindowAcc.intoSummary, hlastAt]⟩

theorem sum_absorbAll (acc : WindowAcc V) (rows : List (Row V)) :
    (absorbAll acc rows).sum = rows.foldl (fun sum row => sum + row.agg.sum) acc.sum := by
  induction rows generalizing acc with
  | nil => rfl
  | cons row rows ih => exact ih _

theorem min_absorbAll (acc : WindowAcc V) (rows : List (Row V)) :
    (absorbAll acc rows).min =
      rows.foldl (fun m row => some (m.elim row.agg.min (min · row.agg.min))) acc.min := by
  induction rows generalizing acc with
  | nil => rfl
  | cons row rows ih => exact ih _

theorem max_absorbAll (acc : WindowAcc V) (rows : List (Row V)) :
    (absorbAll acc rows).max =
      rows.foldl (fun m row => some (m.elim row.agg.max (max · row.agg.max))) acc.max := by
  induction rows generalizing acc with
  | nil => rfl
  | cons row rows ih => exact ih _

/-- Rows are absorbed in any order, if no two of them have one start. -/
theorem absorbAll_eq_of_perm (hV : OrderFree V) {rows rows' : List (Row V)} (hperm : rows.Perm rows')
    (hone : ∀ row ∈ rows, ∀ row' ∈ rows, row.bucketStart = row'.bucketStart → row = row') :
    absorbAll {} rows = absorbAll {} rows' := by
  obtain ⟨hn, hlast, hlastAt⟩ :=
    (latest_absorbAll rows).alike (latest_absorbAll rows') hperm hone
  have hadd : RightCommutative fun (sum : V) (row : Row V) => sum + row.agg.sum :=
    ⟨fun sum a b => by rw [hV.add_assoc, hV.add_comm a.agg.sum, ← hV.add_assoc]⟩
  have hmin := rightCommutative_elim hV.min_comm hV.min_assoc fun row : Row V => row.agg.min
  have hmax := rightCommutative_elim hV.max_comm hV.max_assoc fun row : Row V => row.agg.max
  have hsum : (absorbAll {} rows).sum = (absorbAll {} rows').sum := by
    rw [sum_absorbAll, sum_absorbAll, hperm.foldl_eq]
  have hleast : (absorbAll {} rows).min = (absorbAll {} rows').min := by
    rw [min_absorbAll, min_absorbAll, hperm.foldl_eq]
  have hgreatest : (absorbAll {} rows).max = (absorbAll {} rows').max := by
    rw [max_absorbAll, max_absorbAll, hperm.foldl_eq]
  generalize absorbAll {} rows = acc at *
  generalize absorbAll {} rows' = acc' at *
  obtain ⟨n, sum, min, max, last, lastAt⟩ := acc
  obtain ⟨n', sum', min', max', last', lastAt'⟩ := acc'
  simp only [WindowAcc.intoSummary] at hn hsum hleast hgreatest hlast hlastAt
  rw [hn, hsum, hleast, hgreatest, hlast, hlastAt]

end

namespace Engine

variable {σ V : Type} {E : Engine σ V} {all : List Tier}

theorem Views.getElem? {s : σ} {id i : ℕ} {ts : List Tier} {rings : List (Ring V)}
    (h : E.Views s id i ts rings) {k : ℕ} {tier : Tier} (hk : ts[k]? = some tier) :
    ∃ ring, rings[k]? = some ring ∧
      (∀ slot, (E.tables id).fetchRow s (i + k) tier slot = ring.rows.lookup slot) ∧
      (E.tables id).fetchCursor s (i + k) = ring.cursor := by
  induction ts generalizing i rings k with
  | nil => cases hk
  | cons tier' ts ih =>
    cases rings with
    | nil => exact h.elim
    | cons ring rings =>
      cases k with
      | zero =>
        obtain rfl := Option.some.inj hk
        exact ⟨ring, rfl, h.1⟩
      | succ k =>
        obtain ⟨ring', hring', hviews⟩ := ih h.2 hk
        rw [Nat.add_right_comm] at hviews
        exact ⟨ring', hring', hviews⟩

theorem Represents.eq_of_name {τ : Type} {E' : Engine τ V} {s : σ} {s' : τ} {store : Store V}
    (h : E.Represents all s store) (h' : E'.Represents all s' store) {m m' : MetricRow}
    (hm : m ∈ E.metrics s) (hm' : m' ∈ E'.metrics s') (hname : m.name = m'.name) {i : ℕ} {tier : Tier}
    (hi : all[i]? = some tier) :
    (∀ slot, (E.tables m.id).fetchRow s i tier slot = (E'.tables m'.id).fetchRow s' i tier slot) ∧
      (E.tables m.id).fetchCursor s i = (E'.tables m'.id).fetchCursor s' i := by
  obtain ⟨ring, hring, hrow, hcursor⟩ := (h.views m hm).getElem? hi
  obtain ⟨ring', hring', hrow', hcursor'⟩ := (h'.views m' hm').getElem? hi
  rw [hname] at hring
  obtain rfl := Option.some.inj (hring.symm.trans hring')
  rw [Nat.zero_add] at hrow hcursor hrow' hcursor'
  exact ⟨fun slot => (hrow slot).trans (hrow' slot).symm, hcursor.trans hcursor'.symm⟩

theorem Represents.eq_none {s : σ} {store : Store V} (h : E.Represents all s store) {id : ℕ}
    (hid : ∀ m ∈ E.metrics s, m.id ≠ id) {i : ℕ} {tier : Tier} (hi : all[i]? = some tier) :
    (∀ slot, (E.tables id).fetchRow s i tier slot = none) ∧ (E.tables id).fetchCursor s i = none := by
  obtain ⟨ring, hring, hrow, hcursor⟩ := (h.fresh id hid).getElem? hi
  rw [List.getElem?_map, hi, Option.map_some] at hring
  obtain rfl := Option.some.inj hring
  rw [Nat.zero_add] at hrow hcursor
  exact ⟨hrow, hcursor⟩

theorem Represents.exists_metric_iff {τ : Type} {E' : Engine τ V} {s : σ} {s' : τ} {store : Store V}
    (h : E.Represents all s store) (h' : E'.Represents all s' store) (name : Str) (kind : MetricKind) :
    (∃ m ∈ E.metrics s, m.name = name ∧ m.kind = kind) ↔
      ∃ m ∈ E'.metrics s', m.name = name ∧ m.kind = kind := by
  have hkind : ∀ {υ : Type} {E : Engine υ V} {s : υ}, E.Represents all s store →
      ((∃ m ∈ E.metrics s, m.name = name ∧ m.kind = kind) ↔
        (store.lookup name).map Metric.kind = some kind) := by
    intro υ E s h
    rw [← h.kinds name, Option.map_eq_some_iff]
    exact exists_congr fun m => by rw [h.names.find?_eq_some_iff, and_assoc]
  rw [hkind h, hkind h']

theorem liveOpen_views {s : σ} {id i : ℕ} {ts : List Tier} {rings : List (Ring V)}
    (h : E.Views s id i ts rings) (cutoff : ℤ) (n : ℕ) :
    ((ts.zipIdx i).take n).filterMap (fun t => (E.tables id).liveOpen s cutoff t.2 t.1) =
      (rings.take n).filterMap (Ring.liveOpen · cutoff) := by
  induction ts generalizing i rings n with
  | nil =>
    cases rings with
    | nil => rw [List.zipIdx_nil, List.take_nil, List.take_nil, List.filterMap_nil, List.filterMap_nil]
    | cons ring rings => exact h.elim
  | cons tier ts ih =>
    cases rings with
    | nil => exact h.elim
    | cons ring rings =>
      cases n with
      | zero => rfl
      | succ n =>
        obtain ⟨⟨hrow, hcursor⟩, hrest⟩ := h
        have hopen : (E.tables id).liveOpen s cutoff i tier = ring.liveOpen cutoff := by
          rw [RingTables.liveOpen, Ring.liveOpen, hcursor]
          simp only [hrow]
        rw [List.zipIdx_cons, List.take_succ_cons, List.take_succ_cons, List.filterMap_cons,
          List.filterMap_cons, hopen, ih hrest]

section

variable [Zero V] [Add V] [Min V] [Max V]

/-- A query over the tables absorbs the rows of one ring, in the order of the database, and then the
open windows of the finer ones. -/
theorem window_of_views (hE : E.Lawful all) (hall : all ≠ []) {s : σ} {id : ℕ}
    {rings : List (Ring V)} (h : E.Views s id 0 all rings) (order : RowOrder V)
    (nowSecs windowSecs : ℤ) :
    ∃ ring rows, rings[pickTierIdx all windowSecs]? = some ring ∧
      rows.Perm (ring.live (cutoffOf nowSecs windowSecs)) ∧
      (E.tables id).window order all s nowSecs windowSecs =
        (absorbAll (absorbAll {} (order.arrange rows))
          ((rings.take (pickTierIdx all windowSecs)).filterMap
            (Ring.liveOpen · (cutoffOf nowSecs windowSecs)))).intoSummary := by
  obtain ⟨tier, htier⟩ : ∃ tier, all[pickTierIdx all windowSecs]? = some tier :=
    ⟨_, List.getElem?_eq_getElem (pickTierIdx_lt hall windowSecs)⟩
  obtain ⟨ring, hring, hrow, -⟩ := h.getElem? htier
  rw [Nat.zero_add] at hrow
  refine ⟨ring, _, hring, (hE.select htier id s ring.rows hrow).filter _, ?_⟩
  rw [RingTables.window, htier]
  dsimp only
  rw [liveOpen_views h, absorbAll, List.foldl_append]

/-- **A query over the tables is a query of the rings**, if numbers are added and compared in any
order. -/
theorem window_eq (hV : OrderFree V) (hE : E.Lawful all) (hall : all ≠ []) {s : σ} {id : ℕ}
    {rings : List (Ring V)} (h : E.Views s id 0 all rings)
    (hrings : ∀ ring ∈ rings, ring.Unrepeated) (order : RowOrder V) (nowSecs windowSecs : ℤ) :
    (E.tables id).window order all s nowSecs windowSecs =
      (absorbAll {} (liveRows (pickTierIdx all windowSecs) rings
        (cutoffOf nowSecs windowSecs))).intoSummary := by
  obtain ⟨ring, rows, hring, hperm, heq⟩ := window_of_views hE hall h order nowSecs windowSecs
  have hone := (hrings ring (List.mem_of_getElem? hring)).live (cutoffOf nowSecs windowSecs)
  have hlive := absorbAll_eq_of_perm hV ((order.perm rows).trans hperm).symm hone
  rw [heq, ← hlive, liveRows, List.getD_eq_getElem?_getD, hring, Option.getD_some]
  exact congrArg WindowAcc.intoSummary List.foldl_append.symm

/-- **The queries of two engines that hold the same rings**: they agree in the number of samples and in
the latest of them; and in all they say, if the rows are in the same order, or if no order matters. -/
theorem window_alike {τ : Type} {E' : Engine τ V} (hE : E.Lawful all) (hE' : E'.Lawful all)
    (hall : all ≠ []) {s : σ} {s' : τ} {id id' : ℕ} {rings : List (Ring V)}
    (h : E.Views s id 0 all rings) (h' : E'.Views s' id' 0 all rings)
    (hrings : ∀ ring ∈ rings, ring.Unrepeated) (order order' : RowOrder V)
    (nowSecs windowSecs : ℤ) :
    ((E.tables id).window order all s nowSecs windowSecs).Alike
        ((E'.tables id').window order' all s' nowSecs windowSecs) ∧
      (order.Agrees order' ∨ OrderFree V → (E.tables id).window order all s nowSecs windowSecs =
        (E'.tables id').window order' all s' nowSecs windowSecs) := by
  obtain ⟨ring, rows, hring, hperm, heq⟩ := window_of_views hE hall h order nowSecs windowSecs
  obtain ⟨ring', rows', hring', hperm', heq'⟩ := window_of_views hE' hall h' order' nowSecs windowSecs
  obtain rfl := Option.some.inj (hring.symm.trans hring')
  have hsame : rows.Perm rows' := hperm.trans hperm'.symm
  have harranged := (order.perm rows).trans (hsame.trans (order'.perm rows').symm)
  have hone : ∀ row ∈ order.arrange rows, ∀ row' ∈ order.arrange rows,
      row.bucketStart = row'.bucketStart → row = row' := fun row hrow row' hrow' =>
    (hrings ring (List.mem_of_getElem? hring)).live _ row
      (((order.perm rows).trans hperm).mem_iff.1 hrow) row'
      (((order.perm rows).trans hperm).mem_iff.1 hrow')
  rw [heq, heq']
  refine ⟨alike_absorbAll ((latest_absorbAll _).alike (latest_absorbAll _) harranged hone) _, ?_⟩
  rintro (hagrees | hV)
  · rw [hagrees rows rows' hsame]
  · rw [absorbAll_eq_of_perm hV harranged hone]

end

end Engine

end Usage

end Wkp
