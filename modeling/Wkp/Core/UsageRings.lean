import Wkp.Core.Usage
import Mathlib.Tactic.Linarith

/-!
# What the usage rings keep

* `Usage.Consistent` : the invariant of the rings of a metric: a cursor points to the row of its
  window, and no ring is ahead of the finer ones.
* `Usage.apply_consistent`, `Usage.not_late_of_mem_tail_visited` : `apply` keeps it, and never comes
  too late to a coarser ring.
* `Usage.stored_of_apply` : and loses nothing, as long as the coarsest ring does not lap itself.
* `Usage.recordAll_conserves` : so no sample is lost or counted twice, in any run.
-/

namespace Wkp

open Rust

namespace Usage

/-! ### Steps -/

theorem floorToStep_ediv {step : ℤ} (h : 0 < step) (secs : ℤ) :
    floorToStep secs step / step = secs / step :=
  Int.mul_ediv_cancel _ h.ne'

theorem floorToStep_mono {step : ℤ} (h : 0 < step) {a b : ℤ} (hab : a ≤ b) :
    floorToStep a step ≤ floorToStep b step :=
  Int.mul_le_mul_of_nonneg_right (Int.ediv_le_ediv h hab) h.le

/-- A step that another one divides evenly starts where one of its parts does. -/
theorem floorToStep_floorToStep {step next : ℤ} (h : 0 < step) (hdvd : step ∣ next) (secs : ℤ) :
    floorToStep (floorToStep secs step) next = floorToStep secs next := by
  obtain ⟨k, rfl⟩ := hdvd
  rw [floorToStep, floorToStep, ← Int.ediv_ediv_of_nonneg h.le, Int.mul_ediv_cancel _ h.ne',
    Int.ediv_ediv_of_nonneg h.le, floorToStep]

/-! ### The invariant -/

variable {V : Type}

/-- The rows of a ring are in their slots, none is ahead of the cursor, and each window is that of
some time; the cursor points to the row of its window. -/
structure Ring.Real (P : ℤ → Prop) (tier : Tier) (ring : Ring V) : Prop where
  /-- Each row. -/
  row : ∀ slot row, ring.rows.lookup slot = some row →
    slot = slotFor row.bucketStart tier.stepSecs tier.slots ∧
      (∃ t, P t ∧ row.bucketStart = floorToStep t tier.stepSecs) ∧
      ∃ cursor, ring.cursor = some cursor ∧ row.bucketStart ≤ cursor.bucketStart
  /-- The cursor. -/
  cursor : ∀ cursor, ring.cursor = some cursor →
    ∃ row, ring.rows.lookup cursor.slot = some row ∧ row.bucketStart = cursor.bucketStart

/-- The next ring is not ahead of this one. -/
def Behind (ring : Ring V) : List Tier → List (Ring V) → Prop
  | next :: _, ring' :: _ => ∀ cursor', ring'.cursor = some cursor' →
    ∃ cursor, ring.cursor = some cursor ∧
      cursor'.bucketStart ≤ floorToStep cursor.bucketStart next.stepSecs
  | _, _ => True

/-- The invariant of the rings of a metric, whose samples are at times in `P`. -/
def Consistent (P : ℤ → Prop) : List Tier → List (Ring V) → Prop
  | [], [] => True
  | tier :: tiers, ring :: rings =>
    ring.Real P tier ∧ Behind ring tiers rings ∧ Consistent P tiers rings
  | _, _ => False

/-- The steps are positive, and each divides the coarser ones. -/
structure Nested (ts : List Tier) : Prop where
  /-- Positive. -/
  pos : ∀ tier ∈ ts, 0 < tier.stepSecs
  /-- Divisors. -/
  dvd : ts.Pairwise fun a b => a.stepSecs ∣ b.stepSecs

theorem nested_tiers : Nested tiers := ⟨by decide, by decide⟩

theorem Nested.tail {tier : Tier} {ts : List Tier} (h : Nested (tier :: ts)) : Nested ts :=
  ⟨fun t ht => h.pos t (List.mem_cons_of_mem _ ht), h.dvd.of_cons⟩

theorem Ring.Real.writeSlot {P : ℤ → Prop} {tier : Tier} {ring : Ring V} (h : ring.Real P tier)
    {cursor : Cursor} (hc : ring.cursor = some cursor) (agg : SlotAgg V) :
    (ring.writeSlot cursor.slot cursor.bucketStart agg).Real P tier := by
  obtain ⟨row₀, hrow₀, hstart⟩ := h.cursor cursor hc
  obtain ⟨hslot, htime, -⟩ := h.row _ _ hrow₀
  refine ⟨fun slot row hrow => ?_, fun c hc' => ?_⟩
  · by_cases hs : slot = cursor.slot
    · subst hs
      obtain rfl := Option.some.inj ((AList.lookup_insert _).symm.trans hrow)
      rw [hstart] at hslot htime
      exact ⟨hslot, htime, cursor, hc, le_rfl⟩
    · exact h.row slot row ((AList.lookup_insert_ne hs).symm.trans hrow)
  · obtain rfl := Option.some.inj (hc.symm.trans hc')
    exact ⟨_, AList.lookup_insert _, rfl⟩

theorem Ring.Real.openWindow {P : ℤ → Prop} {tier : Tier} {ring : Ring V} (h : ring.Real P tier)
    {bucketStart : ℤ} (htime : ∃ t, P t ∧ bucketStart = floorToStep t tier.stepSecs)
    (hc : ∀ cursor, ring.cursor = some cursor → cursor.bucketStart ≤ bucketStart) (agg : SlotAgg V) :
    (ring.openWindow tier bucketStart agg).Real P tier := by
  refine ⟨fun slot row hrow => ?_, fun c hc' => ?_⟩
  · by_cases hs : slot = slotFor bucketStart tier.stepSecs tier.slots
    · subst hs
      obtain rfl := Option.some.inj ((AList.lookup_insert _).symm.trans hrow)
      exact ⟨rfl, htime, _, rfl, le_rfl⟩
    · obtain ⟨hslot, ht, cursor, hcursor, hle⟩ :=
        h.row slot row ((AList.lookup_insert_ne hs).symm.trans hrow)
      exact ⟨hslot, ht, _, rfl, hle.trans (hc cursor hcursor)⟩
  · obtain rfl := Option.some.inj hc'
    exact ⟨_, AList.lookup_insert _, rfl⟩

theorem Ring.Real.floorToStep_next {P : ℤ → Prop} {tier next : Tier} {ts : List Tier} {ring : Ring V}
    (h : ring.Real P tier) (hn : Nested (tier :: next :: ts)) {cursor : Cursor}
    (hc : ring.cursor = some cursor) :
    ∃ t, P t ∧ floorToStep cursor.bucketStart next.stepSecs = floorToStep t next.stepSecs := by
  obtain ⟨row, hrow, hstart⟩ := h.cursor cursor hc
  obtain ⟨-, ⟨t, ht, htime⟩, -⟩ := h.row _ _ hrow
  refine ⟨t, ht, ?_⟩
  rw [← hstart, htime, floorToStep_floorToStep (hn.pos tier List.mem_cons_self)
    ((List.pairwise_cons.1 hn.dvd).1 next List.mem_cons_self)]

theorem Ring.branch_spec (ring : Ring V) (bucketStart : ℤ) :
    match ring.branch bucketStart with
    | .first => ring.cursor = none
    | .same cursor => ring.cursor = some cursor ∧ cursor.bucketStart = bucketStart
    | .late cursor => ring.cursor = some cursor ∧ bucketStart < cursor.bucketStart
    | .closed cursor => ring.cursor = some cursor ∧ cursor.bucketStart < bucketStart := by
  rw [Ring.branch]
  cases hc : ring.cursor with
  | none => exact rfl
  | some cursor =>
    dsimp only
    split_ifs with hsame hlate
    · exact ⟨rfl, hsame⟩
    · exact ⟨rfl, hlate⟩
    · exact ⟨rfl, by omega⟩

/-- The next ring has a cursor only if this one has. -/
theorem Behind.of_cursor_eq {ring ring' : Ring V} {ts : List Tier} {rings : List (Ring V)}
    (h : Behind ring ts rings) (hc : ring'.cursor = ring.cursor) : Behind ring' ts rings := by
  unfold Behind at h ⊢
  split at h
  · rw [hc]
    exact h
  · trivial

/-- What `apply` does with the coarser rings when a window closes. -/
def foldUp [Add V] [Min V] [Max V] (ts : List Tier) (rings : List (Ring V)) (bucketStart : ℤ)
    (agg : SlotAgg V) : Option (List (Ring V)) :=
  match ts with
  | [] => some rings
  | next :: _ => apply ts rings (floorToStep bucketStart next.stepSecs) agg

theorem apply_of_closed [Add V] [Min V] [Max V] {tier : Tier} {ts : List Tier} {ring : Ring V}
    {rings : List (Ring V)} {bucketStart : ℤ} {incoming : SlotAgg V} {cursor : Cursor} {row : Row V}
    (hb : ring.branch bucketStart = .closed cursor)
    (hrow : ring.rows.lookup cursor.slot = some row) :
    apply (tier :: ts) (ring :: rings) bucketStart incoming =
      (foldUp ts rings cursor.bucketStart row.agg).map
        (ring.openWindow tier bucketStart incoming :: ·) := by
  rw [apply, hb]
  dsimp only
  rw [hrow]
  cases ts with
  | nil => rfl
  | cons next ts => exact Option.map_eq_bind.symm

/-- `apply` keeps the invariant, when the coarser rings take a window that closes. -/
theorem apply_consistent_of_foldUp [Add V] [Min V] [Max V] {P : ℤ → Prop} {tier : Tier}
    {ts : List Tier} {ring : Ring V} {rings : List (Ring V)}
    (h : Consistent P (tier :: ts) (ring :: rings)) {bucketStart : ℤ}
    (htime : ∃ t, P t ∧ bucketStart = floorToStep t tier.stepSecs) (incoming : SlotAgg V)
    (hfold : ∀ cursor row, ring.cursor = some cursor → ring.rows.lookup cursor.slot = some row →
      ∃ rings', foldUp ts rings cursor.bucketStart row.agg = some rings' ∧ Consistent P ts rings' ∧
        ∀ ring' cursor', Ring.cursor ring' = some cursor' →
          cursor.bucketStart ≤ cursor'.bucketStart → Behind ring' ts rings') :
    ∃ ring' rings' cursor', apply (tier :: ts) (ring :: rings) bucketStart incoming =
        some (ring' :: rings') ∧ Consistent P (tier :: ts) (ring' :: rings') ∧
      ring'.cursor = some cursor' ∧
      ((∀ cursor, ring.cursor = some cursor → cursor.bucketStart ≤ bucketStart) →
        cursor'.bucketStart = bucketStart) := by
  obtain ⟨hreal, hbehind, hrest⟩ := h
  have hspec := ring.branch_spec bucketStart
  cases hb : ring.branch bucketStart with
  | first =>
    rw [apply, hb]
    rw [hb] at hspec
    dsimp only at hspec ⊢
    have hnone : ∀ c, ring.cursor ≠ some c := fun c hc => nomatch hspec.symm.trans hc
    refine ⟨_, _, _, rfl, ⟨hreal.openWindow htime (fun c hc => absurd hc (hnone c)) _, ?_, hrest⟩,
      rfl, fun _ => rfl⟩
    -- before the first event of this ring there was none in the coarser ones
    unfold Behind at hbehind ⊢
    split at hbehind
    · intro c' hc'
      obtain ⟨c, hc, -⟩ := hbehind c' hc'
      exact absurd hc (hnone c)
    · trivial
  | same cursor =>
    rw [hb] at hspec
    obtain ⟨hc, rfl⟩ := hspec
    obtain ⟨row, hrow, hstart⟩ := hreal.cursor cursor hc
    rw [apply, hb]
    dsimp only
    rw [hrow]
    exact ⟨_, _, _, rfl, ⟨hreal.writeSlot hc _, hbehind.of_cursor_eq rfl, hrest⟩, hc, fun _ => rfl⟩
  | late cursor =>
    rw [hb] at hspec
    obtain ⟨hc, hlt⟩ := hspec
    obtain ⟨row, hrow, hstart⟩ := hreal.cursor cursor hc
    rw [apply, hb]
    dsimp only
    rw [hrow]
    exact ⟨_, _, _, rfl, ⟨hreal.writeSlot hc _, hbehind.of_cursor_eq rfl, hrest⟩, hc,
      fun hle => absurd (hle cursor hc) (not_le.2 hlt)⟩
  | closed cursor =>
    rw [hb] at hspec
    obtain ⟨hc, hlt⟩ := hspec
    obtain ⟨row, hrow, hstart⟩ := hreal.cursor cursor hc
    obtain ⟨rings', hup, hcons, hbehind'⟩ := hfold cursor row hc hrow
    have hopen : (ring.openWindow tier bucketStart incoming).Real P tier :=
      hreal.openWindow htime (fun c hc' => by
        obtain rfl := Option.some.inj (hc.symm.trans hc')
        exact hlt.le) incoming
    rw [apply_of_closed hb hrow, hup]
    exact ⟨_, rings', _, rfl, ⟨hopen, hbehind' _ _ rfl hlt.le, hcons⟩, rfl, fun _ => rfl⟩

/-- **`apply` keeps the invariant**, without a panic. -/
theorem apply_consistent [Add V] [Min V] [Max V] {P : ℤ → Prop} {tier : Tier} {ts : List Tier}
    {ring : Ring V} {rings : List (Ring V)} (hn : Nested (tier :: ts))
    (h : Consistent P (tier :: ts) (ring :: rings)) {bucketStart : ℤ}
    (htime : ∃ t, P t ∧ bucketStart = floorToStep t tier.stepSecs)
    (incoming : SlotAgg V) :
    ∃ ring' rings' cursor', apply (tier :: ts) (ring :: rings) bucketStart incoming =
        some (ring' :: rings') ∧ Consistent P (tier :: ts) (ring' :: rings') ∧
      ring'.cursor = some cursor' ∧
      ((∀ cursor, ring.cursor = some cursor → cursor.bucketStart ≤ bucketStart) →
        cursor'.bucketStart = bucketStart) := by
  refine apply_consistent_of_foldUp h htime incoming fun cursor row hc hrow => ?_
  induction ts generalizing tier ring rings bucketStart incoming cursor row with
  | nil => exact ⟨rings, rfl, h.2.2, fun _ _ _ _ => trivial⟩
  | cons next ts ih =>
    obtain ⟨hreal, hbehind, hrest⟩ := h
    cases rings with
    | nil => exact hrest.elim
    | cons ring₁ rings =>
      have htime₁ := hreal.floorToStep_next hn hc
      obtain ⟨ring', rings', cursor', happly, hcons, hcursor', hle⟩ :=
        apply_consistent_of_foldUp hrest htime₁ row.agg fun c r hc' hr' =>
          ih hn.tail hrest htime₁ row.agg c r hc' hr'
      refine ⟨_, happly, hcons, fun ring₂ cursor₂ hc₂ hle₂ c hc' => ⟨cursor₂, hc₂, ?_⟩⟩
      obtain rfl := Option.some.inj (hcursor'.symm.trans hc')
      have hahead : cursor'.bucketStart = floorToStep cursor.bucketStart next.stepSecs := by
        refine hle fun c₁ hc₁ => ?_
        obtain ⟨c₀, hc₀, hc₀'⟩ := hbehind c₁ hc₁
        obtain rfl := Option.some.inj (hc.symm.trans hc₀)
        exact hc₀'
      rw [hahead]
      exact floorToStep_mono (hn.pos next (List.mem_cons_of_mem _ List.mem_cons_self)) hle₂

theorem visited_of_closed {tier next : Tier} {ts : List Tier} {ring : Ring V} {rings : List (Ring V)}
    {bucketStart : ℤ} {cursor : Cursor} (hb : ring.branch bucketStart = .closed cursor) :
    visited (tier :: next :: ts) (ring :: rings) bucketStart =
      (tier, .closed cursor) ::
        visited (next :: ts) rings (floorToStep cursor.bucketStart next.stepSecs) := by
  simp only [visited, hb]

theorem visited_eq_cons (tier : Tier) (ts : List Tier) (ring : Ring V) (rings : List (Ring V))
    (bucketStart : ℤ) : visited (tier :: ts) (ring :: rings) bucketStart =
      (tier, ring.branch bucketStart) ::
        (visited (tier :: ts) (ring :: rings) bucketStart).tail := by
  simp only [visited, List.tail_cons]

/-- The first ring that is come to is the one of the event; the coarser ones take a window that
closed, and never too late. -/
theorem not_late_of_mem_tail_visited {P : ℤ → Prop} {ts : List Tier} {rings : List (Ring V)}
    (h : Consistent P ts rings) (bucketStart : ℤ) :
    ∀ v ∈ (visited ts rings bucketStart).tail, v.2.isLate = false := by
  induction ts generalizing rings bucketStart with
  | nil => exact nofun
  | cons tier ts ih =>
    cases rings with
    | nil => exact nofun
    | cons ring rings =>
      obtain ⟨-, hbehind, hrest⟩ := h
      have hspec := ring.branch_spec bucketStart
      cases hb : ring.branch bucketStart with
      | first => simp [visited, hb]
      | same cursor => simp [visited, hb]
      | late cursor => simp [visited, hb]
      | closed cursor =>
        rw [hb] at hspec
        cases ts with
        | nil => simp [visited, hb]
        | cons next ts =>
          rw [visited_of_closed hb, List.tail_cons]
          cases rings with
          | nil => exact nofun
          | cons ring' rings =>
            have hspec' := ring'.branch_spec (floorToStep cursor.bucketStart next.stepSecs)
            have hrec := ih hrest (floorToStep cursor.bucketStart next.stepSecs)
            have hhead : (ring'.branch (floorToStep cursor.bucketStart next.stepSecs)).isLate
                = false := by
              cases hb' : ring'.branch (floorToStep cursor.bucketStart next.stepSecs) with
              | late cursor' =>
                -- the coarser ring is not ahead of the window that closed
                rw [hb'] at hspec'
                obtain ⟨c, hc, hle⟩ := hbehind cursor' hspec'.1
                obtain rfl := Option.some.inj (hspec.1.symm.trans hc)
                exact absurd hle (not_le.2 hspec'.2)
              | first => rfl
              | same => rfl
              | closed => rfl
            rw [visited_eq_cons]
            exact List.forall_mem_cons.2 ⟨hhead, hrec⟩

/-! ### Runs -/

/-- The rings of a metric, empty ones if it is not there. -/
def Store.rings (ts : List Tier) (store : Store V) (name : Str) : List (Ring V) :=
  match store.lookup name with
  | some metric => metric.rings
  | none => ts.map fun _ => {}

/-- The invariant of a store, with a set of times for each name. -/
def Store.Sound (P : Str → ℤ → Prop) (ts : List Tier) (store : Store V) : Prop :=
  ∀ name, Consistent (P name) ts (store.rings ts name)

theorem Ring.Real.mono {P Q : ℤ → Prop} (hPQ : ∀ t, P t → Q t) {tier : Tier} {ring : Ring V}
    (h : ring.Real P tier) : ring.Real Q tier where
  row slot row hrow := by
    obtain ⟨hslot, ⟨t, ht, htime⟩, hc⟩ := h.row slot row hrow
    exact ⟨hslot, ⟨t, hPQ t ht, htime⟩, hc⟩
  cursor := h.cursor

theorem Consistent.mono {P Q : ℤ → Prop} (hPQ : ∀ t, P t → Q t) {ts : List Tier}
    {rings : List (Ring V)} (h : Consistent P ts rings) : Consistent Q ts rings := by
  induction ts generalizing rings with
  | nil =>
    cases rings with
    | nil => trivial
    | cons ring rings => exact h.elim
  | cons tier ts ih =>
    cases rings with
    | nil => exact h.elim
    | cons ring rings => exact ⟨h.1.mono hPQ, h.2.1, ih h.2.2⟩

theorem consistent_empty (P : ℤ → Prop) (ts : List Tier) :
    Consistent P ts (ts.map fun _ => ({} : Ring V)) := by
  induction ts with
  | nil => trivial
  | cons tier ts ih =>
    refine ⟨⟨nofun, nofun⟩, ?_, ih⟩
    cases ts with
    | nil => trivial
    | cons next ts => exact nofun

theorem Store.rings_insert (ts : List Tier) (store : Store V) (name : Str) (metric : Metric V)
    (name' : Str) : Store.rings ts (store.insert name metric) name' =
      if name' = name then metric.rings else Store.rings ts store name' := by
  rw [Store.rings]
  split_ifs with h
  · rw [h, AList.lookup_insert]
  · rw [AList.lookup_insert_ne h, Store.rings]

theorem Store.rings_of_lookup (ts : List Tier) {store : Store V} {name : Str} {metric : Metric V}
    (h : store.lookup name = some metric) : store.rings ts name = metric.rings := by
  rw [Store.rings, h]

theorem getOrCreateMetric_of_lookup (ts : List Tier) {store : Store V} {name : Str} {metric : Metric V}
    (h : store.lookup name = some metric) (kind : MetricKind) :
    getOrCreateMetric ts store name kind =
      if metric.kind ≠ kind then .error (.metricKindMismatch name kind metric.kind)
      else .ok metric := by
  unfold getOrCreateMetric
  rw [h]

theorem getOrCreateMetric_of_lookup_eq_none (ts : List Tier) {store : Store V} {name : Str}
    (h : store.lookup name = none) (kind : MetricKind) :
    getOrCreateMetric ts store name kind = .ok ⟨kind, ts.map fun _ => {}⟩ := by
  unfold getOrCreateMetric
  rw [h]

theorem rings_of_getOrCreateMetric {ts : List Tier} {store : Store V} {name : Str} {kind : MetricKind}
    {metric : Metric V} (h : getOrCreateMetric ts store name kind = .ok metric) :
    metric.rings = Store.rings ts store name := by
  rw [getOrCreateMetric] at h
  rw [Store.rings]
  cases hl : store.lookup name with
  | none =>
    rw [hl] at h
    cases h
    rfl
  | some metric' =>
    rw [hl] at h
    dsimp only at h ⊢
    split_ifs at h
    cases h
    rfl

section

variable [Add V] [Min V] [Max V] {tier : Tier} {ts : List Tier} {P : Str → ℤ → Prop} {store : Store V}

/-- A sample that is not refused, at one of the times. -/
theorem apply_of_sound (hn : Nested (tier :: ts)) (h : store.Sound P (tier :: ts)) {s : Sample V}
    (ht : P s.name s.secs) :
    ∃ rings', apply (tier :: ts) (store.rings (tier :: ts) s.name)
        (floorToStep s.secs tier.stepSecs) (.single s.value) = some rings' ∧
      Consistent (P s.name) (tier :: ts) rings' := by
  have hcons := h s.name
  cases hr : store.rings (tier :: ts) s.name with
  | nil =>
    rw [hr] at hcons
    exact hcons.elim
  | cons ring rings =>
    rw [hr] at hcons
    obtain ⟨ring', rings', -, happly, hcons', -⟩ :=
      apply_consistent hn hcons ⟨s.secs, ht, rfl⟩ (.single s.value)
    exact ⟨_, happly, hcons'⟩

theorem record_spec (ts : List Tier) (store : Store V) (s : Sample V) :
    (∃ e, record ts store s = some (.error e)) ∨
      ∃ metric : Metric V, metric.rings = store.rings ts s.name ∧
        record ts store s = (apply ts (store.rings ts s.name)
          (floorToStep s.secs ((ts.head?.map Tier.stepSecs).getD 0)) (.single s.value)).map
            fun rings => .ok (store.insert s.name { metric with rings := rings }) := by
  rw [record]
  split_ifs with hneg
  · exact .inl ⟨_, rfl⟩
  · cases hm : getOrCreateMetric ts store s.name s.kind with
    | error e => exact .inl ⟨e, rfl⟩
    | ok metric =>
      have hr := rings_of_getOrCreateMetric hm
      refine .inr ⟨metric, hr, ?_⟩
      rw [← hr]

/-- **A sample does not panic**; one that is not refused is at one of the times. -/
theorem record_isSome (hn : Nested (tier :: ts)) (h : store.Sound P (tier :: ts)) (s : Sample V) :
    ∃ r, record (tier :: ts) store s = some r := by
  obtain ⟨e, he⟩ | ⟨metric, -, hrec⟩ := record_spec (tier :: ts) store s
  · exact ⟨_, he⟩
  · -- the times do not matter here
    have hall : store.Sound (fun _ _ => True) (tier :: ts) :=
      fun name => (h name).mono fun _ _ => trivial
    obtain ⟨rings', happly, -⟩ := apply_of_sound hn hall (s := s) trivial
    have hrec' := hrec.trans (congrArg (Option.map _) happly)
    exact ⟨_, hrec'⟩

theorem apply_of_record (hn : Nested (tier :: ts)) (h : store.Sound P (tier :: ts)) {s : Sample V}
    {store' : Store V} (ht : P s.name s.secs)
    (hrec : record (tier :: ts) store s = some (.ok store')) :
    ∃ rings', apply (tier :: ts) (store.rings (tier :: ts) s.name)
        (floorToStep s.secs tier.stepSecs) (.single s.value) = some rings' ∧
      Consistent (P s.name) (tier :: ts) rings' ∧ ∀ name, store'.rings (tier :: ts) name =
        if name = s.name then rings' else store.rings (tier :: ts) name := by
  obtain ⟨e, he⟩ | ⟨metric, -, hrec'⟩ := record_spec (tier :: ts) store s
  · cases he.symm.trans hrec
  · obtain ⟨rings', happly, hcons⟩ := apply_of_sound hn h ht
    obtain ⟨r, hr, hok⟩ := Option.map_eq_some_iff.1 (hrec'.symm.trans hrec)
    obtain rfl := Option.some.inj (happly.symm.trans hr)
    cases hok
    exact ⟨_, happly, hcons, fun name => Store.rings_insert _ _ _ _ _⟩

theorem record_sound (hn : Nested (tier :: ts)) (h : store.Sound P (tier :: ts)) {s : Sample V}
    {store' : Store V} (ht : P s.name s.secs)
    (hrec : record (tier :: ts) store s = some (.ok store')) : store'.Sound P (tier :: ts) := by
  obtain ⟨rings', -, hcons, hrings⟩ := apply_of_record hn h ht hrec
  intro name
  rw [hrings]
  split_ifs with hname
  · rw [hname]
    exact hcons
  · exact h name

/-- **A run does not panic, and keeps the invariant.** -/
theorem recordAll_sound (hn : Nested (tier :: ts)) (h : store.Sound P (tier :: ts))
    (ss : List (Sample V)) (ht : ∀ s ∈ recorded (tier :: ts) store ss, P s.name s.secs) :
    ∃ store', recordAll (tier :: ts) store ss = some store' ∧ store'.Sound P (tier :: ts) := by
  induction ss generalizing store with
  | nil => exact ⟨store, rfl, h⟩
  | cons s ss ih =>
    obtain ⟨r, hr⟩ := record_isSome hn h s
    rw [recorded, hr] at ht
    rw [recordAll, hr]
    cases r with
    | error e => exact ih h ht
    | ok store₁ =>
      obtain ⟨htime, hrest⟩ := List.forall_mem_cons.1 ht
      exact ih (record_sound hn h htime hr) hrest

end

/-- A cursor points to a slot whose row has its start. -/
def Ring.Grounded (ring : Ring V) : Prop :=
  ∀ cursor, ring.cursor = some cursor →
    ∃ row, ring.rows.lookup cursor.slot = some row ∧ row.bucketStart = cursor.bucketStart

theorem Consistent.grounded {P : ℤ → Prop} {ts : List Tier} {rings : List (Ring V)}
    (h : Consistent P ts rings) : ∀ ring ∈ rings, ring.Grounded := by
  induction ts generalizing rings with
  | nil =>
    cases rings with
    | nil => exact nofun
    | cons ring rings => exact h.elim
  | cons tier ts ih =>
    cases rings with
    | nil => exact nofun
    | cons ring rings => exact List.forall_mem_cons.2 ⟨h.1.cursor, ih h.2.2⟩

/-! ### What is stored -/

theorem counted_mergedWith (self incoming : SlotAgg) (newer : Bool) :
    counted (self.mergedWith incoming newer) = counted self + counted incoming := rfl

theorem stored_cons (ring : Ring) {rings : List Ring} (h : rings ≠ []) :
    stored (ring :: rings) = ring.openCount + stored rings := by
  cases rings with
  | nil => exact absurd rfl h
  | cons ring' rings => rfl

namespace Ring

variable {ring : Ring}

theorem openCount_of_lookup {cursor : Cursor} {row : Row} (hc : ring.cursor = some cursor)
    (hrow : ring.rows.lookup cursor.slot = some row) : ring.openCount = counted row.agg := by
  rw [openCount, hc, Option.bind_some, hrow]

theorem openCount_of_none (hc : ring.cursor = none) : ring.openCount = 0 := by
  rw [openCount, hc]
  rfl

@[simp] theorem openCount_openWindow (ring : Ring) (tier : Tier) (bucketStart : ℤ)
    (agg : SlotAgg) : (ring.openWindow tier bucketStart agg).openCount = counted agg := by
  have hrow : (ring.openWindow tier bucketStart agg).rows.lookup
      (slotFor bucketStart tier.stepSecs tier.slots) = some ⟨bucketStart, agg⟩ :=
    AList.lookup_insert _
  have hc : (ring.openWindow tier bucketStart agg).cursor =
      some ⟨slotFor bucketStart tier.stepSecs tier.slots, bucketStart⟩ := rfl
  exact openCount_of_lookup hc hrow

theorem openCount_writeSlot {cursor : Cursor} (hc : ring.cursor = some cursor) (bucketStart : ℤ)
    (agg : SlotAgg) : (ring.writeSlot cursor.slot bucketStart agg).openCount = counted agg := by
  have hrow : (ring.writeSlot cursor.slot bucketStart agg).rows.lookup cursor.slot =
      some ⟨bucketStart, agg⟩ := AList.lookup_insert _
  have hc' : (ring.writeSlot cursor.slot bucketStart agg).cursor = some cursor := hc
  exact openCount_of_lookup hc' hrow

theorem allCount_writeSlot {slot bucketStart : ℤ} {row : Row}
    (hrow : ring.rows.lookup slot = some row) (incoming : SlotAgg) (newer : Bool) :
    (ring.writeSlot slot bucketStart (row.agg.mergedWith incoming newer)).allCount =
      ring.allCount + counted incoming := by
  have h := Total.total_replace (fun e : Sigma fun _ : ℤ => Row => counted e.2.agg)
    ⟨bucketStart, row.agg.mergedWith incoming newer⟩ hrow
  refine add_right_cancel (h.trans ?_)
  dsimp only
  rw [counted_mergedWith, allCount]
  abel

theorem allCount_openWindow {tier : Tier} {bucketStart : ℤ}
    (h : slotFor bucketStart tier.stepSecs tier.slots ∉ ring.rows) (agg : SlotAgg) :
    (ring.openWindow tier bucketStart agg).allCount = counted agg + ring.allCount :=
  Total.total_insert _ _ h

end Ring

/-- The times are less than a lap of the ring apart, in its steps. -/
def Lap (P : ℤ → Prop) (tier : Tier) : Prop :=
  ∀ t t', P t → P t' → t' / tier.stepSecs - t / tier.stepSecs < tier.slots

/-- Within a lap a window that is opened later takes a slot of its own. -/
theorem Ring.Real.notMem_of_lap {P : ℤ → Prop} {tier : Tier} {ring : Ring} (h : ring.Real P tier)
    (hpos : 0 < tier.stepSecs) (hlap : Lap P tier) {bucketStart : ℤ}
    (htime : ∃ t, P t ∧ bucketStart = floorToStep t tier.stepSecs)
    (hlt : ∀ cursor, ring.cursor = some cursor → cursor.bucketStart < bucketStart) :
    slotFor bucketStart tier.stepSecs tier.slots ∉ ring.rows := by
  intro hmem
  obtain ⟨row, hrow⟩ := Option.isSome_iff_exists.1 (AList.lookup_isSome.2 hmem)
  obtain ⟨hslot, ⟨t', ht', hrow'⟩, cursor, hc, hle⟩ := h.row _ _ hrow
  obtain ⟨t, ht, rfl⟩ := htime
  have hbefore : t' / tier.stepSecs < t / tier.stepSecs := by
    have hlt := hle.trans_lt (hlt cursor hc)
    rw [hrow'] at hlt
    exact lt_of_mul_lt_mul_right hlt hpos.le
  rw [hrow', slotFor, slotFor, floorToStep_ediv hpos, floorToStep_ediv hpos] at hslot
  have hdvd : tier.slots ∣ t / tier.stepSecs - t' / tier.stepSecs :=
    Int.dvd_of_emod_eq_zero (Int.emod_eq_emod_iff_emod_sub_eq_zero.1 hslot)
  have hslots := Int.le_of_dvd (by omega) hdvd
  have := hlap t' t ht' ht
  omega

/-- A window that closed is added to the coarser rings; that of the coarsest stays where it is. -/
theorem stored_openWindow {P : ℤ → Prop} {tier : Tier} {ts : List Tier} {ring : Ring}
    {rings rings' : List Ring} (h : Consistent P (tier :: ts) (ring :: rings))
    (hpos : 0 < tier.stepSecs) (hlap : ∀ last ∈ (tier :: ts).getLast?, Lap P last)
    {bucketStart : ℤ} (htime : ∃ t, P t ∧ bucketStart = floorToStep t tier.stepSecs)
    (hlt : ∀ cursor, ring.cursor = some cursor → cursor.bucketStart < bucketStart)
    (hrings : ts ≠ [] → stored rings' = stored rings + ring.openCount)
    (hne : ts ≠ [] → rings' ≠ []) (hnil : ts = [] → rings' = rings) (incoming : SlotAgg) :
    stored (ring.openWindow tier bucketStart incoming :: rings') =
      stored (ring :: rings) + counted incoming := by
  obtain ⟨hreal, -, hrest⟩ := h
  cases ts with
  | nil =>
    cases rings with
    | nil =>
      obtain rfl := hnil rfl
      have hmem := hreal.notMem_of_lap hpos (hlap tier rfl) htime hlt
      exact (Ring.allCount_openWindow hmem incoming).trans (add_comm _ _)
    | cons ring' rings => exact hrest.elim
  | cons next ts =>
    cases rings with
    | nil => exact hrest.elim
    | cons ring' rings =>
      have hts : next :: ts ≠ [] := List.cons_ne_nil _ _
      rw [stored_cons _ (hne hts), Ring.openCount_openWindow, hrings hts,
        stored_cons ring (List.cons_ne_nil _ _)]
      abel

theorem stored_writeSlot {ring : Ring} {cursor : Cursor} {row : Row}
    (hc : ring.cursor = some cursor) (hrow : ring.rows.lookup cursor.slot = some row)
    (bucketStart : ℤ) (incoming : SlotAgg) (newer : Bool) (rings : List Ring) :
    stored (ring.writeSlot cursor.slot bucketStart (row.agg.mergedWith incoming newer) :: rings) =
      stored (ring :: rings) + counted incoming := by
  cases rings with
  | nil => exact Ring.allCount_writeSlot hrow incoming newer
  | cons ring' rings =>
    rw [stored_cons _ (List.cons_ne_nil _ _), stored_cons _ (List.cons_ne_nil _ _),
      Ring.openCount_writeSlot hc, Ring.openCount_of_lookup hc hrow, counted_mergedWith]
    abel

/-- `apply` loses nothing, when the coarser rings lose nothing of a window that closes. -/
theorem stored_of_apply_of_foldUp {P : ℤ → Prop} {tier : Tier} {ts : List Tier} {ring : Ring}
    {rings rings' : List Ring} (h : Consistent P (tier :: ts) (ring :: rings))
    (hpos : 0 < tier.stepSecs) (hlap : ∀ last ∈ (tier :: ts).getLast?, Lap P last)
    {bucketStart : ℤ} (htime : ∃ t, P t ∧ bucketStart = floorToStep t tier.stepSecs)
    {incoming : SlotAgg}
    (hfold : ts ≠ [] → ∀ cursor row, ring.cursor = some cursor →
      ring.rows.lookup cursor.slot = some row →
        ∃ rings', foldUp ts rings cursor.bucketStart row.agg = some rings' ∧ rings' ≠ [] ∧
          stored rings' = stored rings + counted row.agg)
    (happly : apply (tier :: ts) (ring :: rings) bucketStart incoming = some rings') :
    stored rings' = stored (ring :: rings) + counted incoming := by
  have hspec := ring.branch_spec bucketStart
  cases hb : ring.branch bucketStart with
  | first =>
    rw [hb] at hspec
    rw [apply, hb] at happly
    cases happly
    have hnone : ∀ c, ring.cursor ≠ some c := fun c hc => nomatch hspec.symm.trans hc
    refine stored_openWindow h hpos hlap htime (fun c hc => absurd hc (hnone c)) (fun _ => ?_)
      (fun hts => ?_) (fun _ => rfl) incoming
    · rw [Ring.openCount_of_none hspec, add_zero]
    · -- there is a ring for each tier
      rintro rfl
      cases ts with
      | nil => exact hts rfl
      | cons next ts => exact h.2.2.elim
  | same cursor =>
    rw [hb] at hspec
    obtain ⟨row, hrow, -⟩ := h.1.cursor cursor hspec.1
    rw [apply, hb] at happly
    dsimp only at happly
    rw [hrow] at happly
    cases happly
    exact stored_writeSlot hspec.1 hrow _ incoming true rings
  | late cursor =>
    rw [hb] at hspec
    obtain ⟨row, hrow, -⟩ := h.1.cursor cursor hspec.1
    rw [apply, hb] at happly
    dsimp only at happly
    rw [hrow] at happly
    cases happly
    exact stored_writeSlot hspec.1 hrow _ incoming false rings
  | closed cursor =>
    rw [hb] at hspec
    obtain ⟨hc, hlt⟩ := hspec
    obtain ⟨row, hrow, -⟩ := h.1.cursor cursor hc
    rw [apply_of_closed hb hrow] at happly
    obtain ⟨rings'', hup, rfl⟩ := Option.map_eq_some_iff.1 happly
    have hlt' : ∀ c, ring.cursor = some c → c.bucketStart < bucketStart := fun c hc' => by
      obtain rfl := Option.some.inj (hc.symm.trans hc')
      exact hlt
    have hof : ts ≠ [] → rings'' ≠ [] ∧ stored rings'' = stored rings + counted row.agg := by
      intro hts
      obtain ⟨r, hr, hstored⟩ := hfold hts cursor row hc hrow
      obtain rfl := Option.some.inj (hup.symm.trans hr)
      exact hstored
    refine stored_openWindow h hpos hlap htime hlt' (fun hts => ?_) (fun hts => (hof hts).1)
      (fun hts => ?_) incoming
    · rw [(hof hts).2, Ring.openCount_of_lookup hc hrow]
    · subst hts
      exact (Option.some.inj hup).symm

/-- **`apply` loses nothing**, as long as the coarsest ring does not lap itself. -/
theorem stored_of_apply {P : ℤ → Prop} {tier : Tier} {ts : List Tier} {ring : Ring}
    {rings rings' : List Ring} (hn : Nested (tier :: ts))
    (h : Consistent P (tier :: ts) (ring :: rings))
    (hlap : ∀ last ∈ (tier :: ts).getLast?, Lap P last) {bucketStart : ℤ}
    (htime : ∃ t, P t ∧ bucketStart = floorToStep t tier.stepSecs) {incoming : SlotAgg}
    (happly : apply (tier :: ts) (ring :: rings) bucketStart incoming = some rings') :
    stored rings' = stored (ring :: rings) + counted incoming := by
  have hpos := hn.pos tier List.mem_cons_self
  induction ts generalizing tier ring rings rings' bucketStart incoming with
  | nil =>
    exact stored_of_apply_of_foldUp h hpos hlap htime (fun hts => absurd rfl hts) happly
  | cons next ts ih =>
    refine stored_of_apply_of_foldUp h hpos hlap htime (fun _ cursor row hc hrow => ?_) happly
    obtain ⟨hreal, -, hrest⟩ := h
    cases rings with
    | nil => exact hrest.elim
    | cons ring₁ rings =>
      have htime₁ := hreal.floorToStep_next hn hc
      obtain ⟨ring', rings', -, happly₁, -⟩ :=
        apply_consistent hn.tail hrest htime₁ row.agg
      exact ⟨_, happly₁, List.cons_ne_nil _ _, ih hn.tail hrest hlap htime₁ happly₁
        (hn.pos next (List.mem_cons_of_mem _ List.mem_cons_self))⟩

/-! ### What a run stores -/

/-- The number and the sum of the samples of a name. -/
def sampled (name : Str) (ss : List Sample) : ℤ × ℚ :=
  let own := ss.filter fun s => s.name = name
  (own.length, (own.map Sample.value).sum)

theorem sampled_cons (name : Str) (s : Sample) (ss : List Sample) :
    sampled name (s :: ss) =
      (if s.name = name then counted (.single s.value) else 0) + sampled name ss := by
  rw [sampled, List.filter_cons]
  split_ifs with h h' h'
  · refine Prod.ext ?_ (List.sum_cons)
    push_cast [List.length_cons]
    exact add_comm _ _
  · exact absurd (of_decide_eq_true h) h'
  · exact absurd (decide_eq_true h') h
  · exact (zero_add _).symm

theorem stored_empty (ts : List Tier) : stored (ts.map fun _ => {}) = 0 := by
  induction ts with
  | nil => rfl
  | cons tier ts ih =>
    cases ts with
    | nil => rfl
    | cons next ts => exact (congrArg (0 + ·) ih).trans (zero_add 0)

section

variable {tier : Tier} {ts : List Tier} {P : Str → ℤ → Prop} {store : Store}

theorem stored_of_record (hn : Nested (tier :: ts)) (h : store.Sound P (tier :: ts)) {s : Sample}
    {store' : Store} (ht : P s.name s.secs)
    (hrec : record (tier :: ts) store s = some (.ok store')) {name : Str}
    (hlap : ∀ last ∈ (tier :: ts).getLast?, Lap (P name) last) :
    stored (store'.rings (tier :: ts) name) = stored (store.rings (tier :: ts) name) +
      if s.name = name then counted (.single s.value) else 0 := by
  obtain ⟨rings', happly, -, hrings⟩ := apply_of_record hn h ht hrec
  rw [hrings]
  by_cases hname : name = s.name
  · subst hname
    rw [if_pos rfl, if_pos rfl]
    have hcons := h s.name
    cases hr : store.rings (tier :: ts) s.name with
    | nil =>
      rw [hr] at hcons
      exact hcons.elim
    | cons ring rings =>
      rw [hr] at hcons happly
      exact stored_of_apply hn hcons hlap ⟨_, ht, rfl⟩ happly
  · rw [if_neg hname, if_neg (Ne.symm hname), add_zero]

theorem stored_of_recordAll (hn : Nested (tier :: ts)) (h : store.Sound P (tier :: ts))
    {ss : List Sample} (ht : ∀ s ∈ recorded (tier :: ts) store ss, P s.name s.secs) {store' : Store}
    (hrun : recordAll (tier :: ts) store ss = some store') {name : Str}
    (hlap : ∀ last ∈ (tier :: ts).getLast?, Lap (P name) last) :
    stored (store'.rings (tier :: ts) name) = stored (store.rings (tier :: ts) name) +
      sampled name (recorded (tier :: ts) store ss) := by
  induction ss generalizing store with
  | nil =>
    obtain rfl := Option.some.inj hrun
    exact (add_zero _).symm
  | cons s ss ih =>
    obtain ⟨r, hr⟩ := record_isSome hn h s
    rw [recorded, hr] at ht
    rw [recordAll, hr] at hrun
    rw [recorded, hr]
    cases r with
    | error e => exact ih h ht hrun
    | ok store₁ =>
      obtain ⟨htime, hrest⟩ := List.forall_mem_cons.1 ht
      dsimp only at hrest hrun ⊢
      rw [ih (record_sound hn h htime hr) hrest hrun, stored_of_record hn h htime hr hlap,
        sampled_cons, add_assoc]

end

/-- **What any samples in any order leave.**  No panic; a cursor points to the row of its window;
no event comes too late to a coarser ring; and a metric whose samples are less than a lap of the
coarsest ring apart has all of them in store, each once. -/
theorem recordAll_conserves (ss : List Sample) :
    ∃ store, recordAll tiers ∅ ss = some store ∧ ∀ name,
      (∀ ring ∈ store.rings tiers name, ring.Grounded) ∧
      (∀ bucketStart, ∀ v ∈ (visited tiers (store.rings tiers name) bucketStart).tail,
        v.2.isLate = false) ∧
      ((∀ last ∈ tiers.getLast?,
          Lap (fun t => ∃ s ∈ recorded tiers ∅ ss, s.name = name ∧ s.secs = t) last) →
        stored (store.rings tiers name) = sampled name (recorded tiers ∅ ss)) := by
  have hempty : Store.Sound (fun name t => ∃ s ∈ recorded tiers ∅ ss, s.name = name ∧ s.secs = t)
      tiers (∅ : Store) := fun name => consistent_empty _ tiers
  have htimes : ∀ s ∈ recorded tiers ∅ ss, ∃ s' ∈ recorded tiers ∅ ss,
      s'.name = s.name ∧ s'.secs = s.secs := fun s hs => ⟨s, hs, rfl, rfl⟩
  obtain ⟨store, hrun, hsound⟩ := recordAll_sound nested_tiers hempty ss htimes
  refine ⟨store, hrun, fun name => ⟨(hsound name).grounded, fun bucketStart =>
    not_late_of_mem_tail_visited (hsound name) bucketStart, fun hlap => ?_⟩⟩
  calc stored (store.rings tiers name)
      = stored (Store.rings tiers ∅ name) + sampled name (recorded tiers ∅ ss) :=
        stored_of_recordAll nested_tiers hempty htimes hrun hlap
    _ = sampled name (recorded tiers ∅ ss) := by
        rw [show stored (Store.rings tiers ∅ name) = 0 from stored_empty tiers, zero_add]

/-- The last second of a window and two days later, and then a sample that comes late. -/
def scattered : List Sample :=
  [21599, 194400, 30000].map fun secs => ⟨"events".toList, .counter, 1, secs * 1000000000⟩

theorem conserves_scattered :
    ∃ store, recordAll tiers ∅ scattered = some store ∧
      stored (store.rings tiers "events".toList) = sampled "events".toList scattered := by
  obtain ⟨store, hrun, hstored⟩ := recordAll_conserves scattered
  have hrec : recorded tiers ∅ scattered = scattered := by decide +kernel
  have hclose : ∀ s ∈ scattered, ∀ s' ∈ scattered, s'.secs / 21600 - s.secs / 21600 < 1460 := by
    decide +kernel
  rw [hrec] at hstored
  refine ⟨store, hrun, (hstored "events".toList).2.2 fun last hlast => ?_⟩
  obtain rfl := Option.some.inj hlast
  rintro t t' ⟨s, hs, -, rfl⟩ ⟨s', hs', -, rfl⟩
  exact hclose s hs s' hs'

/-- Four samples in less than a year: the last second of a window, and three a year less six hours
later. -/
def lapping : List Sample :=
  [21599, 31536000, 31536900, 31536960].map fun secs =>
    ⟨"events".toList, .counter, 1, secs * 1000000000⟩

/-- The coarsest ring has a slot for each window of a year; less than a year can be in one window
more. -/
theorem not_conserves_lapping :
    (∀ s ∈ lapping, ∀ s' ∈ lapping, s.name = s'.name ∧ s'.secs - s.secs < 1460 * 21600) ∧
      recorded tiers ∅ lapping = lapping ∧
      ∃ store, recordAll tiers ∅ lapping = some store ∧
        stored (store.rings tiers "events".toList) ≠ sampled "events".toList lapping := by
  refine ⟨by decide +kernel, by decide +kernel, ?_⟩
  have h : (recordAll tiers ∅ lapping).map (fun store =>
      (stored (store.rings tiers "events".toList)).1) = some 3 := by decide +kernel
  obtain ⟨store, hrun, hthree⟩ := Option.map_eq_some_iff.1 h
  refine ⟨store, hrun, fun heq => ?_⟩
  rw [heq] at hthree
  exact absurd hthree (by decide +kernel)

end Usage

end Wkp
