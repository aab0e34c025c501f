import Wkp.Core.UsageRings
import Wkp.Lib.Bucket

/-!
# The readings that the usage rings hold

* `Usage.Reading`, `Usage.aggOf` : what is recorded of a metric, and its aggregate.
* `Usage.Holds` : the rings of a metric hold its readings: a closed window is one tier up.
* `Usage.apply_holds` : **`apply` keeps this for readings in the order of time.**
* `Usage.recordAll_holds` : **so the rings hold what is recorded in the order of time.**
-/

namespace Wkp

open Rust

namespace Usage

/-! ### Readings -/

/-- A sample of a metric. -/
structure Reading where
  /-- The time in seconds. -/
  secs : ℤ
  /-- The value. -/
  value : ℚ
  deriving DecidableEq

/-- The aggregate of values in the order of time. -/
def aggOf (vs : List ℚ) : SlotAgg :=
  ⟨vs.length, vs.sum, vs.min?.getD 0, vs.max?.getD 0, vs.getLast?.getD 0⟩

/-- The bucket of a reading. -/
def Reading.bucket (r : Reading) (tier : Tier) : ℤ := floorToStep r.secs tier.stepSecs

/-- The open bucket of a tier that has the readings: that of the latest. -/
def openBucket (tier : Tier) (rs : List Reading) : Option ℤ := rs.getLast?.map (·.bucket tier)

/-- The readings that the next tier has: their bucket is closed. -/
def closedOf (tier : Tier) (rs : List Reading) : List Reading :=
  rs.filter fun r => openBucket tier rs ≠ some (r.bucket tier)

/-- The values of a bucket. -/
def valuesIn (tier : Tier) (rs : List Reading) (bucketStart : ℤ) : List ℚ :=
  (rs.filter (·.bucket tier = bucketStart)).map Reading.value

/-- The bucket has a reading, and no later one is in its slot. -/
def Kept (tier : Tier) (rs : List Reading) (bucketStart : ℤ) : Prop :=
  (∃ r ∈ rs, r.bucket tier = bucketStart) ∧
    ∀ r ∈ rs, slotFor (r.bucket tier) tier.stepSecs tier.slots =
      slotFor bucketStart tier.stepSecs tier.slots → r.bucket tier ≤ bucketStart

theorem aggOf_singleton (v : ℚ) : aggOf [v] = .single v := by
  simp [aggOf, SlotAgg.single]

theorem aggOf_append {vs vs' : List ℚ} (h : vs ≠ []) (h' : vs' ≠ []) :
    aggOf (vs ++ vs') = (aggOf vs).mergedWith (aggOf vs') true := by
  obtain ⟨m, hm⟩ := Option.isSome_iff_exists.1 (List.isSome_min?_iff.2 h)
  obtain ⟨m', hm'⟩ := Option.isSome_iff_exists.1 (List.isSome_min?_iff.2 h')
  obtain ⟨x, hx⟩ := Option.isSome_iff_exists.1 (List.isSome_max?_iff.2 h)
  obtain ⟨x', hx'⟩ := Option.isSome_iff_exists.1 (List.isSome_max?_iff.2 h')
  obtain ⟨l, hl⟩ := Option.isSome_iff_exists.1 (List.getLast?_isSome.2 h')
  simp [aggOf, SlotAgg.mergedWith, Bucket.min?_append, Bucket.max?_append, hm, hm', hx, hx', hl]

/-! ### What a ring holds -/

/-- The ring holds the readings: its cursor is at the open bucket, and each slot has the latest of its
buckets. -/
structure Ring.Holds (tier : Tier) (rs : List Reading) (ring : Ring) : Prop where
  /-- The cursor. -/
  cursor : ring.cursor = (openBucket tier rs).map fun b => ⟨slotFor b tier.stepSecs tier.slots, b⟩
  /-- The rows. -/
  row : ∀ slot row, ring.rows.lookup slot = some row ↔
    slot = slotFor row.bucketStart tier.stepSecs tier.slots ∧
      Kept tier rs row.bucketStart ∧ row.agg = aggOf (valuesIn tier rs row.bucketStart)

/-- The rings hold the readings of a metric: a ring has those whose window has closed one tier
below. -/
def Holds : List Tier → List Reading → List Ring → Prop
  | [], _, [] => True
  | tier :: ts, rs, ring :: rings => ring.Holds tier rs ∧ Holds ts (closedOf tier rs) rings
  | _, _, _ => False

/-- Readings are in the order of time. -/
abbrev InOrder (rs : List Reading) : Prop := rs.Pairwise fun r r' => r.secs ≤ r'.secs

section

variable {tier : Tier} {rs cs : List Reading} {ring : Ring} {b : ℤ}

theorem InOrder.bucket (h : InOrder rs) (hpos : 0 < tier.stepSecs) :
    rs.Pairwise fun r r' => r.bucket tier ≤ r'.bucket tier :=
  h.imp fun hle => floorToStep_mono hpos hle

theorem le_openBucket (h : InOrder rs) (hpos : 0 < tier.stepSecs)
    (hb : openBucket tier rs = some b) : ∀ r ∈ rs, r.bucket tier ≤ b := by
  obtain ⟨r', hr', rfl⟩ := Option.map_eq_some_iff.1 hb
  obtain ⟨rs', rfl⟩ := List.getLast?_eq_some_iff.1 hr'
  intro r hr
  rcases List.mem_append.1 hr with hr | hr
  · exact (List.pairwise_append.1 (h.bucket hpos)).2.2 r hr r' (List.mem_singleton.2 rfl)
  · rw [List.mem_singleton.1 hr]

theorem openBucket_mem (hb : openBucket tier rs = some b) : ∃ r ∈ rs, r.bucket tier = b := by
  obtain ⟨r, hr, rfl⟩ := Option.map_eq_some_iff.1 hb
  exact ⟨r, List.mem_of_getLast? hr, rfl⟩

theorem openBucket_append (hne : cs ≠ []) (hcs : ∀ c ∈ cs, c.bucket tier = b) :
    openBucket tier (rs ++ cs) = some b := by
  obtain ⟨r, hr⟩ := Option.isSome_iff_exists.1 (List.getLast?_isSome.2 hne)
  rw [openBucket, List.getLast?_append, hr]
  exact congrArg some (hcs r (List.mem_of_getLast? hr))

theorem closedOf_eq (hb : openBucket tier rs = some b) :
    closedOf tier rs = rs.filter (·.bucket tier ≠ b) := by
  rw [closedOf, hb]
  refine List.filter_congr fun r _ => ?_
  simp [eq_comm]

/-- A tier that has the readings of a bucket after the others has only the others closed. -/
theorem closedOf_append (hne : cs ≠ []) (hcs : ∀ c ∈ cs, c.bucket tier = b) :
    closedOf tier (rs ++ cs) = rs.filter (·.bucket tier ≠ b) := by
  rw [closedOf_eq (openBucket_append hne hcs), List.filter_append]
  have hnone : cs.filter (·.bucket tier ≠ b) = [] :=
    List.filter_eq_nil_iff.2 fun c hc => by simp [hcs c hc]
  rw [hnone, List.append_nil]

theorem Ring.Holds.insert (h : ring.Holds tier rs) (hne : cs ≠ [])
    (hcs : ∀ c ∈ cs, c.bucket tier = b) (hle : ∀ r ∈ rs, r.bucket tier ≤ b) :
    Ring.Holds tier (rs ++ cs) ⟨ring.rows.insert (slotFor b tier.stepSecs tier.slots)
      ⟨b, aggOf (valuesIn tier (rs ++ cs) b)⟩, some ⟨slotFor b tier.stepSecs tier.slots, b⟩⟩ := by
  have hle' : ∀ r ∈ rs ++ cs, r.bucket tier ≤ b := by
    intro r hr
    rcases List.mem_append.1 hr with hr | hr
    · exact hle r hr
    · exact (hcs r hr).le
  obtain ⟨c, hc⟩ := List.exists_mem_of_ne_nil cs hne
  have hkept : Kept tier (rs ++ cs) b :=
    ⟨⟨c, List.mem_append_right _ hc, hcs c hc⟩, fun r hr _ => hle' r hr⟩
  refine ⟨by rw [openBucket_append hne hcs]; rfl, fun slot row => ?_⟩
  dsimp only
  by_cases hslot : slot = slotFor b tier.stepSecs tier.slots
  · -- the slot of the bucket
    subst hslot
    rw [AList.lookup_insert, Option.some_inj]
    constructor
    · rintro rfl
      exact ⟨rfl, hkept, rfl⟩
    · rintro ⟨hslot, ⟨⟨r, hr, hrb⟩, hlast⟩, hagg⟩
      have hstart : row.bucketStart = b :=
        le_antisymm (hrb ▸ hle' r hr)
          (hcs c hc ▸ hlast c (List.mem_append_right _ hc) (by rw [hcs c hc, hslot]))
      obtain ⟨bucketStart, agg⟩ := row
      subst hstart
      exact congrArg (Row.mk _) hagg.symm
  · -- another slot: the bucket is not there
    rw [AList.lookup_insert_ne hslot, h.row]
    refine and_congr_right fun hs => ?_
    have hb : b ≠ row.bucketStart := fun heq => hslot (by rw [hs, heq])
    have hvalues : valuesIn tier (rs ++ cs) row.bucketStart = valuesIn tier rs row.bucketStart := by
      have hnone : cs.filter (·.bucket tier = row.bucketStart) = [] :=
        List.filter_eq_nil_iff.2 fun c hc => by simp [hcs c hc, hb]
      rw [valuesIn, List.filter_append, hnone, List.append_nil, valuesIn]
    rw [hvalues]
    refine and_congr_left fun _ => ?_
    constructor
    · rintro ⟨⟨r, hr, hrb⟩, hlast⟩
      refine ⟨⟨r, List.mem_append_left _ hr, hrb⟩, fun r' hr' hs' => ?_⟩
      rcases List.mem_append.1 hr' with hr' | hr'
      · exact hlast r' hr' hs'
      · exact absurd (hs.trans hs'.symm) (by rwa [hcs r' hr'])
    · rintro ⟨⟨r, hr, hrb⟩, hlast⟩
      refine ⟨⟨r, ?_, hrb⟩, fun r' hr' => hlast r' (List.mem_append_left _ hr')⟩
      rcases List.mem_append.1 hr with hr | hr
      · exact hr
      · exact absurd ((hcs r hr).symm.trans hrb) hb

theorem Ring.Holds.lookup_open (h : ring.Holds tier rs) (hrs : InOrder rs)
    (hpos : 0 < tier.stepSecs) (hb : openBucket tier rs = some b) :
    ring.rows.lookup (slotFor b tier.stepSecs tier.slots) =
      some ⟨b, aggOf (valuesIn tier rs b)⟩ :=
  (h.row _ _).2 ⟨rfl, ⟨openBucket_mem hb, fun r hr _ => le_openBucket hrs hpos hb r hr⟩, rfl⟩

theorem valuesIn_append (rs cs : List Reading) (b : ℤ) :
    valuesIn tier (rs ++ cs) b = valuesIn tier rs b ++ valuesIn tier cs b := by
  rw [valuesIn, List.filter_append, List.map_append, valuesIn, valuesIn]

theorem valuesIn_of_forall (hcs : ∀ c ∈ cs, c.bucket tier = b) :
    valuesIn tier cs b = cs.map Reading.value := by
  rw [valuesIn, List.filter_eq_self.2 fun c hc => by simp [hcs c hc]]

theorem valuesIn_of_forall_ne (hrs : ∀ r ∈ rs, r.bucket tier ≠ b) : valuesIn tier rs b = [] := by
  rw [valuesIn, List.filter_eq_nil_iff.2 fun r hr => by simp [hrs r hr], List.map_nil]

theorem Ring.Holds.openWindow (h : ring.Holds tier rs) (hne : cs ≠ [])
    (hcs : ∀ c ∈ cs, c.bucket tier = b) (hlt : ∀ r ∈ rs, r.bucket tier < b) :
    (ring.openWindow tier b (aggOf (cs.map Reading.value))).Holds tier (rs ++ cs) := by
  have hinsert := h.insert hne hcs fun r hr => (hlt r hr).le
  rwa [valuesIn_append, valuesIn_of_forall_ne fun r hr => (hlt r hr).ne, List.nil_append,
    valuesIn_of_forall hcs] at hinsert

end

/-! ### Applying -/

section

variable {tier : Tier} {ts : List Tier} {rs cs : List Reading} {ring : Ring} {rings : List Ring}
  {b : ℤ}

theorem openBucket_le (hrs : InOrder (rs ++ cs)) (hpos : 0 < tier.stepSecs) (hne : cs ≠ [])
    (hcs : ∀ c ∈ cs, c.bucket tier = b) : ∀ r ∈ rs, r.bucket tier ≤ b := by
  obtain ⟨c, hc⟩ := List.exists_mem_of_ne_nil cs hne
  intro r hr
  rw [← hcs c hc]
  exact (List.pairwise_append.1 (hrs.bucket hpos)).2.2 r hr c hc

/-- `apply` when the coarser rings take the window that closes. -/
theorem apply_holds_of_foldUp (hpos : 0 < tier.stepSecs)
    (h : Holds (tier :: ts) rs (ring :: rings)) (hrs : InOrder (rs ++ cs)) (hne : cs ≠ [])
    (hcs : ∀ c ∈ cs, c.bucket tier = b)
    (hfold : ∀ o, openBucket tier rs = some o → ∃ rings',
      foldUp ts rings o (aggOf (valuesIn tier rs o)) = some rings' ∧ Holds ts rs rings') :
    ∃ rings', apply (tier :: ts) (ring :: rings) b (aggOf (cs.map Reading.value)) = some rings' ∧
      Holds (tier :: ts) (rs ++ cs) rings' := by
  obtain ⟨hring, hrest⟩ := h
  have hle := openBucket_le hrs hpos hne hcs
  have hcursor := hring.cursor
  cases ho : openBucket tier rs with
  | none =>
    obtain rfl : rs = [] := by simpa [openBucket] using ho
    rw [ho] at hcursor
    have hb : ring.branch b = .first := by rw [Ring.branch, hcursor]; rfl
    refine ⟨ring.openWindow tier b (aggOf (cs.map Reading.value)) :: rings, by rw [apply, hb], ?_⟩
    refine ⟨hring.openWindow hne hcs fun r hr => absurd hr List.not_mem_nil, ?_⟩
    rw [closedOf_append hne hcs]
    exact hrest
  | some o =>
    rw [ho] at hcursor
    have hrs' : InOrder rs := (List.pairwise_append.1 hrs).1
    have hlookup := hring.lookup_open hrs' hpos ho
    obtain ⟨r, hr, hro⟩ := openBucket_mem ho
    rcases (hro ▸ hle r hr : o ≤ b).eq_or_lt with hob | hlt
    · -- the open window takes the readings
      subst hob
      have hb : ring.branch o = .same ⟨slotFor o tier.stepSecs tier.slots, o⟩ := by
        simp [Ring.branch, hcursor]
      have hmerged : (aggOf (valuesIn tier rs o)).mergedWith (aggOf (cs.map Reading.value)) true =
          aggOf (valuesIn tier (rs ++ cs) o) := by
        rw [valuesIn_append, valuesIn_of_forall hcs, aggOf_append]
        · exact List.ne_nil_of_mem (List.mem_map_of_mem
            (List.mem_filter.2 ⟨hr, by simpa using hro⟩))
        · simpa using hne
      have hinsert := hring.insert hne hcs hle
      rw [← hmerged, show some (Cursor.mk (slotFor o tier.stepSecs tier.slots) o) = ring.cursor from
        hcursor.symm] at hinsert
      refine ⟨_ :: _, by rw [apply, hb]; dsimp only; rw [hlookup]; rfl, hinsert, ?_⟩
      rwa [closedOf_append hne hcs, ← closedOf_eq ho]
    · -- the open window closes
      have hb : ring.branch b = .closed ⟨slotFor o tier.stepSecs tier.slots, o⟩ := by
        simp [Ring.branch, hcursor, hlt.ne, hlt.not_gt]
      obtain ⟨rings', hup, hholds⟩ := hfold o ho
      have hlt' : ∀ r ∈ rs, r.bucket tier < b := fun r hr =>
        (le_openBucket hrs' hpos ho r hr).trans_lt hlt
      refine ⟨_ :: _, by rw [apply_of_closed hb hlookup, hup]; rfl,
        hring.openWindow hne hcs hlt', ?_⟩
      rwa [closedOf_append hne hcs, List.filter_eq_self.2 fun r hr => by simp [(hlt' r hr).ne]]

/-- **`apply` takes readings of one bucket, which are the latest ones, and the rings hold them
together with those before.** -/
theorem apply_holds (hn : Nested (tier :: ts)) (h : Holds (tier :: ts) rs (ring :: rings))
    (hrs : InOrder (rs ++ cs)) (hne : cs ≠ []) (hcs : ∀ c ∈ cs, c.bucket tier = b) :
    ∃ rings', apply (tier :: ts) (ring :: rings) b (aggOf (cs.map Reading.value)) = some rings' ∧
      Holds (tier :: ts) (rs ++ cs) rings' := by
  have hpos := hn.pos tier List.mem_cons_self
  refine apply_holds_of_foldUp hpos h hrs hne hcs fun o ho => ?_
  induction ts generalizing tier rs cs ring rings b o with
  | nil =>
    cases rings with
    | nil => exact ⟨[], rfl, trivial⟩
    | cons ring' rings => exact h.2.elim
  | cons next ts ih =>
    cases rings with
    | nil => exact h.2.elim
    | cons ring' rings =>
      have hrs' : InOrder rs := (List.pairwise_append.1 hrs).1
      have hnext := hn.pos next (List.mem_cons_of_mem _ List.mem_cons_self)
      -- the readings of the coarser rings, and then those of the window that closes
      have hsplit : closedOf tier rs ++ rs.filter (·.bucket tier = o) = rs := by
        rw [closedOf_eq ho]
        exact Bucket.filter_ne_append_filter_eq (Reading.bucket · tier) (hrs'.bucket hpos)
          (le_openBucket hrs' hpos ho)
      obtain ⟨r, hr, hro⟩ := openBucket_mem ho
      have hne' : rs.filter (·.bucket tier = o) ≠ [] :=
        List.ne_nil_of_mem (List.mem_filter.2 ⟨hr, by simpa using hro⟩)
      have hbucket : ∀ c ∈ rs.filter (·.bucket tier = o),
          c.bucket next = floorToStep o next.stepSecs := by
        intro c hc
        have hco : c.bucket tier = o := by simpa using (List.mem_filter.1 hc).2
        rw [← hco, Reading.bucket, Reading.bucket,
          floorToStep_floorToStep hpos ((List.pairwise_cons.1 hn.dvd).1 next List.mem_cons_self)]
      have hrs'' : InOrder (closedOf tier rs ++ rs.filter (·.bucket tier = o)) := by
        rwa [hsplit]
      obtain ⟨rings', happly, hholds⟩ := apply_holds_of_foldUp hnext h.2 hrs'' hne' hbucket
        fun o' ho' => ih hn.tail h.2 hrs'' hne' hbucket hnext o' ho'
      rw [hsplit] at hholds
      exact ⟨rings', happly, hholds⟩

end

/-! ### Recording -/

/-- The samples of a metric. -/
def readings (name : Str) (ss : List Sample) : List Reading :=
  (ss.filter fun s => s.name = name).map fun s => ⟨s.secs, s.value⟩

/-- The store holds these readings. -/
structure Store.Holds (ts : List Tier) (rs : Str → List Reading) (store : Store) : Prop where
  /-- In the rings of each metric. -/
  rings : ∀ name, Usage.Holds ts (rs name) (store.rings ts name)
  /-- A metric has a reading. -/
  known : ∀ name, (store.lookup name).isSome = true → rs name ≠ []

theorem readings_append (name : Str) (ss ss' : List Sample) :
    readings name (ss ++ ss') = readings name ss ++ readings name ss' := by
  rw [readings, List.filter_append, List.map_append, readings, readings]

theorem readings_sublist {name : Str} {ss ss' : List Sample} (h : ss.Sublist ss') :
    (readings name ss).Sublist (readings name ss') := (h.filter _).map _

theorem readings_singleton (name : Str) (s : Sample) :
    readings name [s] = if name = s.name then [⟨s.secs, s.value⟩] else [] := by
  rw [readings, List.filter_singleton]
  by_cases h : name = s.name
  · simp [h]
  · simp [h, Ne.symm h]

theorem holds_empty (ts : List Tier) : Holds ts [] (ts.map fun _ => {}) := by
  induction ts with
  | nil => trivial
  | cons tier ts ih =>
    refine ⟨⟨rfl, fun slot row => ⟨fun h => ?_, fun ⟨_, ⟨⟨r, hr, _⟩, _⟩, _⟩ => ?_⟩⟩, ih⟩
    · cases h
    · cases hr

theorem Store.holds_empty (ts : List Tier) : Store.Holds ts (fun _ => []) ∅ :=
  ⟨fun _ => Usage.holds_empty ts, fun _ h => by cases h⟩

section

variable {tier : Tier} {ts : List Tier} {rs : Str → List Reading} {store store' : Store}

/-- **A sample that is recorded after the others of its metric is held with them.** -/
theorem record_holds (hn : Nested (tier :: ts)) (h : store.Holds (tier :: ts) rs) {s : Sample}
    (horder : ∀ name, InOrder (rs name ++ readings name [s]))
    (hrec : record (tier :: ts) store s = some (.ok store')) :
    store'.Holds (tier :: ts) fun name => rs name ++ readings name [s] := by
  obtain ⟨e, he⟩ | ⟨metric, -, hrec'⟩ := record_spec (tier :: ts) store s
  · cases he.symm.trans hrec
  · obtain ⟨rings', happly, hok⟩ := Option.map_eq_some_iff.1 (hrec'.symm.trans hrec)
    cases hok
    have hown : readings s.name [s] = [⟨s.secs, s.value⟩] := by
      rw [readings_singleton, if_pos rfl]
    -- the rings of the metric take the sample, as the window of its second
    have hholds : Usage.Holds (tier :: ts) (rs s.name ++ readings s.name [s]) rings' := by
      have hrings := h.rings s.name
      cases hr : store.rings (tier :: ts) s.name with
      | nil =>
        rw [hr] at hrings
        exact hrings.elim
      | cons ring rings =>
        rw [hr] at hrings happly
        obtain ⟨rings'', happly', hholds⟩ := apply_holds (b := floorToStep s.secs tier.stepSecs) hn
          hrings (horder s.name) (by rw [hown]; exact List.cons_ne_nil _ _)
          (fun c hc => by rw [hown] at hc; rw [List.mem_singleton.1 hc, Reading.bucket])
        rw [hown, List.map_singleton, aggOf_singleton] at happly'
        obtain rfl := Option.some.inj (happly'.symm.trans happly)
        exact hholds
    refine ⟨fun name => ?_, fun name hname => ?_⟩
    · rw [Store.rings_insert]
      split_ifs with heq
      · rw [heq]
        exact hholds
      · rw [readings_singleton, if_neg heq, List.append_nil]
        exact h.rings name
    · by_cases heq : name = s.name
      · rw [heq, hown]
        exact List.append_ne_nil_of_right_ne_nil _ (List.cons_ne_nil _ _)
      · rw [AList.lookup_insert_ne heq] at hname
        exact List.append_ne_nil_of_left_ne_nil (h.known name hname) _

theorem recordAll_holds_append (hn : Nested (tier :: ts)) (h : store.Holds (tier :: ts) rs)
    {ss : List Sample} (horder : ∀ name, InOrder (rs name ++ readings name ss))
    (hrun : recordAll (tier :: ts) store ss = some store') :
    store'.Holds (tier :: ts)
      fun name => rs name ++ readings name (recorded (tier :: ts) store ss) := by
  -- sample by sample: one that is refused adds no reading
  induction ss generalizing store rs with
  | nil =>
    cases hrun
    refine ⟨fun name => ?_, fun name hname => ?_⟩
    · rw [recorded, readings, List.filter_nil, List.map_nil, List.append_nil]
      exact h.rings name
    · rw [recorded, readings, List.filter_nil, List.map_nil, List.append_nil]
      exact h.known name hname
  | cons s ss ih =>
    rw [recordAll] at hrun
    rw [recorded]
    cases hr : record (tier :: ts) store s with
    | none =>
      rw [hr] at hrun
      cases hrun
    | some r =>
      rw [hr] at hrun
      cases r with
      | error e =>
        exact ih h (fun name => (horder name).sublist
          ((readings_sublist (List.sublist_cons_self s ss)).append_left _)) hrun
      | ok store₁ =>
        have hcons : ∀ name ss', rs name ++ readings name (s :: ss') =
            rs name ++ readings name [s] ++ readings name ss' := by
          intro name ss'
          rw [← List.singleton_append, readings_append, List.append_assoc]
        have horder' : ∀ name, InOrder (rs name ++ readings name [s] ++ readings name ss) := by
          intro name
          rw [← hcons]
          exact horder name
        have h₁ := record_holds hn h (fun name => (List.pairwise_append.1 (horder' name)).1) hr
        have hrest := ih h₁ horder' hrun
        refine ⟨fun name => ?_, fun name hname => ?_⟩
        · rw [hcons]
          exact hrest.rings name
        · rw [hcons]
          exact hrest.known name hname

end

/-- **The rings hold what is recorded, for samples in the order of time.** -/
theorem recordAll_holds {tier : Tier} {ts : List Tier} (hn : Nested (tier :: ts))
    {ss : List Sample} (hss : ss.Pairwise fun s s' => s.nanos ≤ s'.nanos) {store : Store}
    (hrun : recordAll (tier :: ts) ∅ ss = some store) :
    store.Holds (tier :: ts) fun name => readings name (recorded (tier :: ts) ∅ ss) := by
  refine recordAll_holds_append hn (Store.holds_empty _) (fun name => ?_) hrun
  rw [List.nil_append, readings, InOrder, List.pairwise_map]
  exact (hss.sublist (List.filter_sublist)).imp fun hle => Int.ediv_le_ediv (by decide) hle

end Usage

end Wkp
