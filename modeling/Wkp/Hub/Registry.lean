import Wkp.Lib.Str
import Wkp.Lib.Trace
import Mathlib.Data.List.AList

/-!
# The registry of open connections

* `Hub.ConnectionRegistry` : the cancellation tokens of the open connections, by certificate.
* `Hub.Step` : registrations, dropped guards and closes in any order, each under the mutex.
* `Hub.IsClosed` : what a history says of a connection: a close that covers its certificate ran while
  it was open.
* `Hub.Accounts` : the registry keeps account of the history.
* `Hub.registry_accounts` : **after every history the cancelled tokens are those of the closed
  connections, every close counts what it newly closed, a dropped guard removes nothing else, and no
  certificate keeps an empty map.**
-/

namespace Wkp

open Rust

namespace Hub

/-! ### The registry -/

/-- A cancellation token, named by the connection that it was made for. -/
abbrev CancellationToken := ℕ

/-- `ConnectionRegistry`, with the tokens that are cancelled. -/
structure ConnectionRegistry where
  /-- The certificates, each with its connections and their tokens. -/
  connections : AList (fun _ : Str => AList fun _ : ℕ => CancellationToken) := ∅
  /-- The number of the next connection. -/
  nextId : ℕ := 0
  /-- The cancelled tokens. -/
  cancelled : List CancellationToken := []

/-- `ConnectionGuard`: it removes its own entry when it is dropped. -/
structure ConnectionGuard where
  /-- The certificate. -/
  certSerial : Str
  /-- The number of the connection. -/
  id : ℕ
  deriving DecidableEq, Repr

namespace ConnectionRegistry

/-- The connections of a certificate. -/
def byId (r : ConnectionRegistry) (certSerial : Str) : AList fun _ : ℕ => CancellationToken :=
  (r.connections.lookup certSerial).getD ∅

/-- `register`. -/
def register (r : ConnectionRegistry) (certSerial : Str) :
    CancellationToken × ConnectionGuard × ConnectionRegistry :=
  let id := r.nextId
  (id, ⟨certSerial, id⟩, { r with
    connections := r.connections.insert certSerial ((r.byId certSerial).insert id id)
    nextId := id + 1 })

/-- `deregister`. -/
def deregister (r : ConnectionRegistry) (guard : ConnectionGuard) : ConnectionRegistry :=
  match r.connections.lookup guard.certSerial with
  | none => r
  | some byId =>
    let byId := byId.erase guard.id
    if byId.entries = [] then { r with connections := r.connections.erase guard.certSerial }
    else { r with connections := r.connections.insert guard.certSerial byId }

/-- `close_device`: how many it closed. -/
def closeDevice (r : ConnectionRegistry) (certSerial : Str) : ℕ × ConnectionRegistry :=
  match r.connections.lookup certSerial with
  | none => (0, r)
  | some byId => (byId.entries.length, { r with
      connections := r.connections.erase certSerial
      cancelled := byId.entries.map Sigma.snd ++ r.cancelled })

/-- `close_all`: how many it closed. -/
def closeAll (r : ConnectionRegistry) : ℕ × ConnectionRegistry :=
  ((r.connections.entries.map fun c => c.2.entries.length).sum, { r with
    connections := ∅
    cancelled := (r.connections.entries.flatMap fun c => c.2.entries.map Sigma.snd) ++ r.cancelled })

/-- The token that the registry has for a connection. -/
def entry (r : ConnectionRegistry) (guard : ConnectionGuard) : Option CancellationToken :=
  (r.byId guard.certSerial).lookup guard.id

/-! ### What the operations do to the entries -/

theorem byId_insert (r : ConnectionRegistry) (certSerial : Str) (m : AList fun _ : ℕ => ℕ)
    (nextId : ℕ) (cancelled : List ℕ) (c : Str) :
    byId ⟨r.connections.insert certSerial m, nextId, cancelled⟩ c =
      if c = certSerial then m else r.byId c := by
  unfold byId
  split_ifs with h
  · rw [h, AList.lookup_insert, Option.getD_some]
  · rw [AList.lookup_insert_ne h]

theorem byId_erase (r : ConnectionRegistry) (certSerial : Str) (nextId : ℕ) (cancelled : List ℕ)
    (c : Str) : byId ⟨r.connections.erase certSerial, nextId, cancelled⟩ c =
      if c = certSerial then ∅ else r.byId c := by
  unfold byId
  split_ifs with h
  · rw [h, AList.lookup_erase, Option.getD_none]
  · rw [AList.lookup_erase_ne h]

theorem entry_register (r : ConnectionRegistry) (certSerial : Str) (g : ConnectionGuard) :
    (r.register certSerial).2.2.entry g =
      if g = ⟨certSerial, r.nextId⟩ then some r.nextId else r.entry g := by
  obtain ⟨c, id⟩ := g
  unfold register entry
  dsimp only
  rw [byId_insert]
  simp only [ConnectionGuard.mk.injEq]
  by_cases hc : c = certSerial
  · by_cases hid : id = r.nextId
    · rw [if_pos hc, if_pos ⟨hc, hid⟩, hid, AList.lookup_insert]
    · rw [if_pos hc, if_neg fun h => hid h.2, AList.lookup_insert_ne hid, hc]
  · rw [if_neg hc, if_neg fun h => hc h.1]

theorem entry_eq_some_iff (r : ConnectionRegistry) (g : ConnectionGuard) {t : ℕ} :
    r.entry g = some t ↔
      ∃ m, r.connections.lookup g.certSerial = some m ∧ m.lookup g.id = some t := by
  unfold entry byId
  cases hm : r.connections.lookup g.certSerial with
  | none => simp
  | some m => simp

theorem entry_deregister (r : ConnectionRegistry) (g g' : ConnectionGuard) :
    (r.deregister g).entry g' = if g' = g then none else r.entry g' := by
  unfold deregister
  cases hm : r.connections.lookup g.certSerial with
  | none =>
    split_ifs with hg
    · rw [hg, entry, byId, hm, Option.getD_none, AList.lookup_empty]
    · rfl
  | some m =>
    dsimp only
    have herase : (m.erase g.id).lookup g'.id = if g'.id = g.id then none else m.lookup g'.id := by
      split_ifs with hid
      · rw [hid, AList.lookup_erase]
      · rw [AList.lookup_erase_ne hid]
    have hsame : g'.certSerial = g.certSerial →
        (if g'.id = g.id then none else m.lookup g'.id) = if g' = g then none else r.entry g' := by
      intro hc
      have hg : g' = g ↔ g'.id = g.id := by
        refine ⟨fun h => by rw [h], fun h => ?_⟩
        obtain ⟨c, id⟩ := g
        obtain ⟨c', id'⟩ := g'
        simp_all
      have hentry : r.entry g' = m.lookup g'.id := by
        rw [entry, byId, hc, hm, Option.getD_some]
      simp only [hg, hentry]
    have hother : g'.certSerial ≠ g.certSerial → g' ≠ g := fun hc h => hc (by rw [h])
    by_cases hc : g'.certSerial = g.certSerial
    · -- the entry is in the same map
      rw [← hsame hc, ← herase]
      split_ifs with hempty
      · rw [entry, byId_erase, if_pos hc, AList.lookup_empty]
        symm
        rw [AList.lookup_eq_none, AList.mem_keys, AList.keys, hempty]
        exact List.not_mem_nil
      · rw [entry, byId_insert, if_pos hc]
    · rw [if_neg (hother hc)]
      split_ifs with hempty
      · rw [entry, byId_erase, if_neg hc, entry]
      · rw [entry, byId_insert, if_neg hc, entry]

theorem entry_closeDevice (r : ConnectionRegistry) (certSerial : Str) (g : ConnectionGuard) :
    (r.closeDevice certSerial).2.entry g =
      if g.certSerial = certSerial then none else r.entry g := by
  unfold closeDevice
  cases hm : r.connections.lookup certSerial with
  | none =>
    split_ifs with hc
    · rw [entry, byId, hc, hm, Option.getD_none, AList.lookup_empty]
    · rfl
  | some m =>
    dsimp only
    rw [entry, byId_erase, entry]
    split_ifs
    · exact AList.lookup_empty _
    · rfl

theorem entry_closeAll (r : ConnectionRegistry) (g : ConnectionGuard) :
    r.closeAll.2.entry g = none := by
  simp [closeAll, entry, byId]

/-! ### What is closed -/

/-- The connections in the registry. -/
def openConnections (r : ConnectionRegistry) : List ConnectionGuard :=
  r.connections.entries.flatMap fun c => c.2.entries.map fun e => ⟨c.1, e.1⟩

theorem mem_openConnections {r : ConnectionRegistry} {g : ConnectionGuard} :
    g ∈ r.openConnections ↔ (r.entry g).isSome = true := by
  rw [Option.isSome_iff_exists]
  simp only [entry_eq_some_iff, openConnections, List.mem_flatMap, List.mem_map]
  constructor
  · rintro ⟨c, hc, e, he, rfl⟩
    exact ⟨e.2, c.2, AList.mem_lookup_iff.2 hc, AList.mem_lookup_iff.2 he⟩
  · rintro ⟨t, m, hm, ht⟩
    exact ⟨⟨g.certSerial, m⟩, AList.mem_lookup_iff.1 hm, ⟨g.id, t⟩, AList.mem_lookup_iff.1 ht, rfl⟩

theorem nodup_openConnections (r : ConnectionRegistry) : r.openConnections.Nodup := by
  unfold openConnections
  rw [List.nodup_flatMap]
  constructor
  · intro c _
    refine (List.nodup_map_iff_inj_on c.2.nodupKeys.nodup).2 fun e he e' he' heq => ?_
    exact c.2.nodupKeys.eq_of_fst_eq he he' (ConnectionGuard.mk.inj heq).2
  · refine (List.nodupKeys_iff_pairwise.1 r.connections.nodupKeys).imp fun hne => ?_
    intro g hg hg'
    obtain ⟨e, -, rfl⟩ := List.mem_map.1 hg
    obtain ⟨e', -, heq⟩ := List.mem_map.1 hg'
    exact hne (ConnectionGuard.mk.inj heq).1.symm

/-- The number of the open connections that are covered. -/
def Counts (r : ConnectionRegistry) (covers : Str → Prop) (n : ℕ) : Prop :=
  ∃ newly : List ConnectionGuard, newly.Nodup ∧ newly.length = n ∧
    ∀ g, g ∈ newly ↔ covers g.certSerial ∧ (r.entry g).isSome = true

theorem counts_closeDevice (r : ConnectionRegistry) (certSerial : Str) :
    r.Counts (· = certSerial) (r.closeDevice certSerial).1 := by
  unfold closeDevice
  cases hm : r.connections.lookup certSerial with
  | none =>
    refine ⟨[], List.nodup_nil, rfl, fun g => ⟨fun h => absurd h List.not_mem_nil, ?_⟩⟩
    rintro ⟨rfl, h⟩
    rw [entry, byId, hm, Option.getD_none, AList.lookup_empty] at h
    cases h
  | some m =>
    refine ⟨m.entries.map fun e => ⟨certSerial, e.1⟩, ?_, List.length_map _, fun g => ?_⟩
    · refine (List.nodup_map_iff_inj_on m.nodupKeys.nodup).2 fun e he e' he' heq => ?_
      exact m.nodupKeys.eq_of_fst_eq he he' (ConnectionGuard.mk.inj heq).2
    · rw [List.mem_map, Option.isSome_iff_exists]
      constructor
      · rintro ⟨e, he, rfl⟩
        exact ⟨rfl, e.2, (r.entry_eq_some_iff _).2 ⟨m, hm, AList.mem_lookup_iff.2 he⟩⟩
      · rintro ⟨rfl, t, ht⟩
        obtain ⟨m', hm', ht⟩ := (r.entry_eq_some_iff g).1 ht
        rw [hm] at hm'
        cases hm'
        exact ⟨⟨g.id, t⟩, AList.mem_lookup_iff.1 ht, rfl⟩

theorem counts_closeAll (r : ConnectionRegistry) : r.Counts (fun _ => True) r.closeAll.1 := by
  refine ⟨r.openConnections, r.nodup_openConnections, ?_, fun g => ?_⟩
  · simp only [openConnections, closeAll, List.length_flatMap, List.length_map]
  · rw [mem_openConnections, true_and]

theorem mem_cancelled_closeDevice {r : ConnectionRegistry} {certSerial : Str} {t : ℕ} :
    t ∈ (r.closeDevice certSerial).2.cancelled ↔
      t ∈ r.cancelled ∨ ∃ id, r.entry ⟨certSerial, id⟩ = some t := by
  unfold closeDevice
  simp only [entry_eq_some_iff]
  cases hm : r.connections.lookup certSerial with
  | none => simp
  | some m =>
    dsimp only
    rw [List.mem_append, List.mem_map, or_comm]
    refine or_congr_right ⟨?_, ?_⟩
    · rintro ⟨e, he, rfl⟩
      exact ⟨e.1, m, rfl, AList.mem_lookup_iff.2 he⟩
    · rintro ⟨id, m', hm', ht⟩
      cases hm'
      exact ⟨⟨id, t⟩, AList.mem_lookup_iff.1 ht, rfl⟩

theorem mem_cancelled_closeAll {r : ConnectionRegistry} {t : ℕ} :
    t ∈ r.closeAll.2.cancelled ↔ t ∈ r.cancelled ∨ ∃ g, r.entry g = some t := by
  unfold closeAll
  simp only [entry_eq_some_iff, List.mem_append, List.mem_flatMap, List.mem_map]
  rw [or_comm]
  refine or_congr_right ⟨?_, ?_⟩
  · rintro ⟨c, hc, e, he, rfl⟩
    exact ⟨⟨c.1, e.1⟩, c.2, AList.mem_lookup_iff.2 hc, AList.mem_lookup_iff.2 he⟩
  · rintro ⟨g, m, hm, ht⟩
    exact ⟨⟨g.certSerial, m⟩, AList.mem_lookup_iff.1 hm, ⟨g.id, t⟩, AList.mem_lookup_iff.1 ht, rfl⟩

theorem nextId_deregister (r : ConnectionRegistry) (g : ConnectionGuard) :
    (r.deregister g).nextId = r.nextId := by
  unfold deregister
  cases r.connections.lookup g.certSerial with
  | none => rfl
  | some m =>
    dsimp only
    split_ifs <;> rfl

theorem cancelled_deregister (r : ConnectionRegistry) (g : ConnectionGuard) :
    (r.deregister g).cancelled = r.cancelled := by
  unfold deregister
  cases r.connections.lookup g.certSerial with
  | none => rfl
  | some m =>
    dsimp only
    split_ifs <;> rfl

theorem nextId_closeDevice (r : ConnectionRegistry) (certSerial : Str) :
    (r.closeDevice certSerial).2.nextId = r.nextId := by
  unfold closeDevice
  cases r.connections.lookup certSerial with
  | none => rfl
  | some m => rfl

/-! ### No empty map -/

/-- Every certificate in the registry has a connection. -/
def NoEmpty (r : ConnectionRegistry) : Prop :=
  ∀ c m, r.connections.lookup c = some m → m.entries ≠ []

theorem NoEmpty.insert {r : ConnectionRegistry} (h : r.NoEmpty) {certSerial : Str}
    {m : AList fun _ : ℕ => ℕ} (hm : m.entries ≠ []) (nextId : ℕ) (cancelled : List ℕ) :
    NoEmpty ⟨r.connections.insert certSerial m, nextId, cancelled⟩ := by
  intro c m' hm'
  dsimp only at hm'
  by_cases hc : c = certSerial
  · rw [hc, AList.lookup_insert] at hm'
    rwa [← Option.some.inj hm']
  · rw [AList.lookup_insert_ne hc] at hm'
    exact h c m' hm'

theorem NoEmpty.erase {r : ConnectionRegistry} (h : r.NoEmpty) (certSerial : Str) (nextId : ℕ)
    (cancelled : List ℕ) : NoEmpty ⟨r.connections.erase certSerial, nextId, cancelled⟩ := by
  intro c m hm
  dsimp only at hm
  by_cases hc : c = certSerial
  · rw [hc, AList.lookup_erase] at hm
    cases hm
  · rw [AList.lookup_erase_ne hc] at hm
    exact h c m hm

theorem NoEmpty.register {r : ConnectionRegistry} (h : r.NoEmpty) (certSerial : Str) :
    (r.register certSerial).2.2.NoEmpty := by
  refine h.insert (fun hnil => ?_) _ _
  have hmem : r.nextId ∈ (r.byId certSerial).insert r.nextId r.nextId :=
    (AList.mem_insert _).2 (.inl rfl)
  rw [AList.mem_keys, AList.keys, hnil] at hmem
  cases hmem

theorem NoEmpty.deregister {r : ConnectionRegistry} (h : r.NoEmpty) (g : ConnectionGuard) :
    (r.deregister g).NoEmpty := by
  unfold ConnectionRegistry.deregister
  cases r.connections.lookup g.certSerial with
  | none => exact h
  | some m =>
    dsimp only
    split_ifs with hempty
    · exact h.erase _ _ _
    · exact h.insert hempty _ _

theorem NoEmpty.closeDevice {r : ConnectionRegistry} (h : r.NoEmpty) (certSerial : Str) :
    (r.closeDevice certSerial).2.NoEmpty := by
  unfold ConnectionRegistry.closeDevice
  cases r.connections.lookup certSerial with
  | none => exact h
  | some m => exact h.erase _ _ _

theorem NoEmpty.closeAll (r : ConnectionRegistry) : r.closeAll.2.NoEmpty := by
  intro c m hm
  cases hm

end ConnectionRegistry

/-! ### Histories -/

/-- What happens to the registry. -/
inductive Event
  | register (guard : ConnectionGuard)
  | drop (guard : ConnectionGuard)
  | closeDevice (certSerial : Str) (closed : ℕ)
  | closeAll (closed : ℕ)

/-- The certificates whose connections the event closes. -/
def Event.covers : Event → Str → Prop
  | closeDevice certSerial _, c => c = certSerial
  | closeAll _, _ => True
  | _, _ => False

/-- The count that the event returns. -/
def Event.closed : Event → Option ℕ
  | closeDevice _ n => some n
  | closeAll n => some n
  | _ => none

/-- The registry and the guards that are not dropped yet. -/
structure Connections where
  /-- The registry. -/
  registry : ConnectionRegistry := {}
  /-- The guards. -/
  guards : List ConnectionGuard := []

/-- One operation, in any order with the others.  A guard is dropped once. -/
inductive Step : Connections → Event → Connections → Prop
  | register (s : Connections) (certSerial : Str) :
      Step s (.register (s.registry.register certSerial).2.1)
        ⟨(s.registry.register certSerial).2.2, (s.registry.register certSerial).2.1 :: s.guards⟩
  | drop (s : Connections) {guard : ConnectionGuard} (h : guard ∈ s.guards) :
      Step s (.drop guard) ⟨s.registry.deregister guard, s.guards.erase guard⟩
  | closeDevice (s : Connections) (certSerial : Str) :
      Step s (.closeDevice certSerial (s.registry.closeDevice certSerial).1)
        ⟨(s.registry.closeDevice certSerial).2, s.guards⟩
  | closeAll (s : Connections) :
      Step s (.closeAll s.registry.closeAll.1) ⟨s.registry.closeAll.2, s.guards⟩

/-- The connection was registered, and its guard is not dropped. -/
def IsOpen (es : List Event) (g : ConnectionGuard) : Prop := .register g ∈ es ∧ .drop g ∉ es

/-- A close that covers the certificate of the connection ran while it was open. -/
def IsClosed (es : List Event) (g : ConnectionGuard) : Prop :=
  ∃ es₁ e es₂, es = es₁ ++ e :: es₂ ∧ e.covers g.certSerial ∧ IsOpen es₁ g

theorem isClosed_append {es : List Event} {e : Event} {g : ConnectionGuard} :
    IsClosed (es ++ [e]) g ↔ IsClosed es g ∨ e.covers g.certSerial ∧ IsOpen es g := by
  constructor
  · rintro ⟨es₁, e', es₂, heq, hcovers, hopen⟩
    cases es₂ using List.reverseRecOn with
    | nil =>
      have hlast := List.append_inj' heq rfl
      obtain rfl : es = es₁ := hlast.1
      obtain rfl : e = e' := List.singleton_inj.1 hlast.2
      exact .inr ⟨hcovers, hopen⟩
    | append_singleton es₂ e'' _ =>
      rw [← List.cons_append, ← List.append_assoc] at heq
      obtain ⟨rfl, -⟩ := List.append_inj' heq rfl
      exact .inl ⟨es₁, e', es₂, rfl, hcovers, hopen⟩
  · rintro (⟨es₁, e', es₂, rfl, hcovers, hopen⟩ | ⟨hcovers, hopen⟩)
    · exact ⟨es₁, e', es₂ ++ [e], by simp, hcovers, hopen⟩
    · exact ⟨es, e, [], rfl, hcovers, hopen⟩

theorem isOpen_append {es : List Event} {e : Event} {g : ConnectionGuard} :
    IsOpen (es ++ [e]) g ↔
      (.register g ∈ es ∨ e = .register g) ∧ .drop g ∉ es ∧ e ≠ .drop g := by
  simp only [IsOpen, List.mem_append, List.mem_singleton, not_or, ne_eq, eq_comm (a := e)]

/-- **The registry keeps account of the history.** -/
structure Accounts (es : List Event) (s : Connections) : Prop where
  /-- Numbers are not used again. -/
  fresh : ∀ g, .register g ∈ es → g.id < s.registry.nextId
  /-- A number names one connection. -/
  unique : ∀ g g', .register g ∈ es → .register g' ∈ es → g.id = g'.id → g = g'
  /-- Only what was registered is dropped. -/
  dropped : ∀ g, .drop g ∈ es → .register g ∈ es
  /-- The guards are those of the open connections, each once. -/
  guards : s.guards.Nodup ∧ ∀ g, g ∈ s.guards ↔ IsOpen es g
  /-- The entries are those of the open connections that are not closed. -/
  entry : ∀ g t, s.registry.entry g = some t ↔ t = g.id ∧ IsOpen es g ∧ ¬ IsClosed es g
  /-- The cancelled tokens are those of the closed connections. -/
  cancelled : ∀ t, t ∈ s.registry.cancelled ↔ ∃ g, g.id = t ∧ IsClosed es g
  /-- No certificate keeps an empty map. -/
  noEmpty : s.registry.NoEmpty

theorem accounts_nil : Accounts [] {} where
  fresh := by intro g h; cases h
  unique := by intro g g' h; cases h
  dropped := by intro g h; cases h
  guards := by
    refine ⟨List.nodup_nil, fun g => ⟨fun h => ?_, fun h => ?_⟩⟩
    · cases h
    · cases h.1
  entry := by
    refine fun g t => ⟨fun h => ?_, fun h => ?_⟩
    · cases h
    · cases h.2.1.1
  cancelled := by
    refine fun t => ⟨fun h => ?_, fun ⟨g, _, es₁, e, es₂, heq, _⟩ => ?_⟩
    · cases h
    · simp at heq
  noEmpty := by intro c m h; cases h

theorem IsClosed.register_mem {es : List Event} {g : ConnectionGuard} (h : IsClosed es g) :
    .register g ∈ es := by
  obtain ⟨es₁, e, es₂, rfl, -, hopen⟩ := h
  exact List.mem_append_left _ hopen.1

namespace Accounts

variable {es : List Event} {s : Connections}

theorem entry_isSome (h : Accounts es s) (g : ConnectionGuard) :
    (s.registry.entry g).isSome = true ↔ IsOpen es g ∧ ¬ IsClosed es g := by
  rw [Option.isSome_iff_exists]
  refine ⟨fun ⟨t, ht⟩ => ((h.entry g t).1 ht).2, fun hg => ⟨g.id, (h.entry g g.id).2 ⟨rfl, hg⟩⟩⟩

theorem not_register (h : Accounts es s) (certSerial : Str) :
    .register ⟨certSerial, s.registry.nextId⟩ ∉ es :=
  fun hmem => lt_irrefl _ (h.fresh _ hmem)

theorem register (h : Accounts es s) (certSerial : Str) :
    Accounts (es ++ [.register ⟨certSerial, s.registry.nextId⟩])
      ⟨(s.registry.register certSerial).2.2,
        ⟨certSerial, s.registry.nextId⟩ :: s.guards⟩ := by
  have hnew := h.not_register certSerial
  have hdrop : .drop ⟨certSerial, s.registry.nextId⟩ ∉ es := fun hmem => hnew (h.dropped _ hmem)
  -- a registration closes nothing and opens the connection with the next number
  have hclosed : ∀ g, IsClosed (es ++ [.register ⟨certSerial, s.registry.nextId⟩]) g ↔
      IsClosed es g := by
    intro g
    rw [isClosed_append]
    exact or_iff_left fun hcovers => hcovers.1
  have hopen : ∀ g, IsOpen (es ++ [.register ⟨certSerial, s.registry.nextId⟩]) g ↔
      IsOpen es g ∨ g = ⟨certSerial, s.registry.nextId⟩ := by
    intro g
    rw [isOpen_append]
    simp only [Event.register.injEq, reduceCtorEq, ne_eq, not_false_eq_true, and_true]
    constructor
    · rintro ⟨hreg | hg, hdropped⟩
      · exact .inl ⟨hreg, hdropped⟩
      · exact .inr hg.symm
    · rintro (hg | rfl)
      · exact ⟨.inl hg.1, hg.2⟩
      · exact ⟨.inr rfl, hdrop⟩
  constructor
  case fresh =>
    intro g hg
    rcases List.mem_append.1 hg with hg | hg
    · exact (h.fresh g hg).trans (Nat.lt_succ_self _)
    · obtain rfl : g = ⟨certSerial, s.registry.nextId⟩ := Event.register.inj (List.mem_singleton.1 hg)
      exact Nat.lt_succ_self _
  case unique =>
    intro g g' hg hg' hid
    rcases List.mem_append.1 hg with hg | hg <;> rcases List.mem_append.1 hg' with hg' | hg'
    · exact h.unique g g' hg hg' hid
    · obtain rfl := Event.register.inj (List.mem_singleton.1 hg')
      exact absurd (h.fresh g hg) (by simp [hid])
    · obtain rfl := Event.register.inj (List.mem_singleton.1 hg)
      exact absurd (h.fresh g' hg') (by simp [← hid])
    · rw [Event.register.inj (List.mem_singleton.1 hg),
        Event.register.inj (List.mem_singleton.1 hg')]
  case dropped =>
    intro g hg
    rcases List.mem_append.1 hg with hg | hg
    · exact List.mem_append_left _ (h.dropped g hg)
    · simp at hg
  case guards =>
    refine ⟨List.nodup_cons.2 ⟨fun hmem => hnew ((h.guards.2 _).1 hmem).1, h.guards.1⟩, fun g => ?_⟩
    rw [List.mem_cons, hopen, h.guards.2, or_comm]
  case entry =>
    intro g t
    dsimp only
    rw [ConnectionRegistry.entry_register, hclosed, hopen]
    split_ifs with hg
    · subst hg
      have hnot : ¬ IsClosed es ⟨certSerial, s.registry.nextId⟩ := fun hc => hnew hc.register_mem
      simp [hnot, eq_comm]
    · rw [h.entry, or_iff_left hg]
  case cancelled =>
    intro t
    simp only [hclosed]
    exact h.cancelled t
  case noEmpty => exact h.noEmpty.register certSerial

theorem drop (h : Accounts es s) {guard : ConnectionGuard} (hguard : guard ∈ s.guards) :
    Accounts (es ++ [.drop guard]) ⟨s.registry.deregister guard, s.guards.erase guard⟩ := by
  -- a guard that is dropped closes nothing, and its connection is not open any more
  have hclosed : ∀ g, IsClosed (es ++ [.drop guard]) g ↔ IsClosed es g := by
    intro g
    rw [isClosed_append]
    exact or_iff_left fun hcovers => hcovers.1
  have hopen : ∀ g, IsOpen (es ++ [.drop guard]) g ↔ IsOpen es g ∧ g ≠ guard := by
    intro g
    rw [isOpen_append]
    simp only [Event.drop.injEq, reduceCtorEq, or_false, ne_eq, eq_comm (a := guard), IsOpen,
      and_assoc]
  have hregister : ∀ g, .register g ∈ es ++ [.drop guard] ↔ .register g ∈ es := by
    intro g
    simp
  constructor
  case fresh =>
    intro g hg
    have hnext : (s.registry.deregister guard).nextId = s.registry.nextId :=
      ConnectionRegistry.nextId_deregister _ _
    rw [hnext]
    exact h.fresh g ((hregister g).1 hg)
  case unique =>
    intro g g' hg hg' hid
    exact h.unique g g' ((hregister g).1 hg) ((hregister g').1 hg') hid
  case dropped =>
    intro g hg
    rcases List.mem_append.1 hg with hg | hg
    · exact List.mem_append_left _ (h.dropped g hg)
    · obtain rfl := Event.drop.inj (List.mem_singleton.1 hg)
      exact List.mem_append_left _ ((h.guards.2 _).1 hguard).1
  case guards =>
    refine ⟨h.guards.1.erase _, fun g => ?_⟩
    rw [h.guards.1.mem_erase_iff, hopen, h.guards.2, and_comm]
  case entry =>
    intro g t
    dsimp only
    rw [ConnectionRegistry.entry_deregister, hclosed, hopen]
    split_ifs with hg
    · simp [hg]
    · rw [h.entry, and_iff_left hg]
  case cancelled =>
    intro t
    simp only [hclosed, ConnectionRegistry.cancelled_deregister]
    exact h.cancelled t
  case noEmpty => exact h.noEmpty.deregister guard

/-- A close: it takes the entries that it covers out, and cancels their tokens. -/
theorem close (h : Accounts es s) {e : Event} {registry : ConnectionRegistry}
    (hevent : ∀ g, e ≠ .register g ∧ e ≠ .drop g) (hnext : registry.nextId = s.registry.nextId)
    (hentry : ∀ g t, registry.entry g = some t ↔
      ¬ e.covers g.certSerial ∧ s.registry.entry g = some t)
    (hcancelled : ∀ t, t ∈ registry.cancelled ↔ t ∈ s.registry.cancelled ∨
      ∃ g, e.covers g.certSerial ∧ s.registry.entry g = some t)
    (hempty : registry.NoEmpty) : Accounts (es ++ [e]) ⟨registry, s.guards⟩ := by
  -- a close registers and drops nothing
  have hopen : ∀ g, IsOpen (es ++ [e]) g ↔ IsOpen es g := by
    intro g
    rw [isOpen_append]
    simp only [(hevent g).1, (hevent g).2, or_false, ne_eq, not_false_eq_true, and_true, IsOpen]
  have hregister : ∀ g, .register g ∈ es ++ [e] ↔ .register g ∈ es := by
    intro g
    rw [List.mem_append, List.mem_singleton, or_iff_left fun heq => (hevent g).1 heq.symm]
  constructor
  case fresh =>
    intro g hg
    rw [hnext]
    exact h.fresh g ((hregister g).1 hg)
  case unique =>
    intro g g' hg hg' hid
    exact h.unique g g' ((hregister g).1 hg) ((hregister g').1 hg') hid
  case dropped =>
    intro g hg
    rcases List.mem_append.1 hg with hg | hg
    · exact List.mem_append_left _ (h.dropped g hg)
    · exact absurd (List.mem_singleton.1 hg).symm (hevent g).2
  case guards =>
    refine ⟨h.guards.1, fun g => ?_⟩
    rw [hopen, h.guards.2]
  case entry =>
    intro g t
    dsimp only
    rw [hentry, h.entry, hopen, isClosed_append]
    tauto
  case cancelled =>
    intro t
    dsimp only
    rw [hcancelled, h.cancelled]
    simp only [isClosed_append, h.entry]
    constructor
    · rintro (⟨g, hid, hg⟩ | ⟨g, hcovers, rfl, hg, -⟩)
      · exact ⟨g, hid, .inl hg⟩
      · exact ⟨g, rfl, .inr ⟨hcovers, hg⟩⟩
    · rintro ⟨g, hid, hg⟩
      by_cases hbefore : IsClosed es g
      · exact .inl ⟨g, hid, hbefore⟩
      · obtain ⟨hcovers, hg⟩ := hg.resolve_left hbefore
        exact .inr ⟨g, hcovers, hid.symm, hg, hbefore⟩
  case noEmpty => exact hempty

/-- **Every operation keeps account.** -/
theorem step (h : Accounts es s) {e : Event} {s' : Connections} (hstep : Step s e s') :
    Accounts (es ++ [e]) s' := by
  cases hstep with
  | register certSerial => exact h.register certSerial
  | drop hguard => exact h.drop hguard
  | closeDevice certSerial =>
    refine h.close (fun g => ⟨by simp, by simp⟩) (ConnectionRegistry.nextId_closeDevice _ _)
      (fun g t => ?_) (fun t => ?_) (h.noEmpty.closeDevice certSerial)
    · rw [ConnectionRegistry.entry_closeDevice]
      unfold Event.covers
      split_ifs with hc
      · simp [hc]
      · simp [hc]
    · rw [ConnectionRegistry.mem_cancelled_closeDevice]
      refine or_congr_right ⟨fun ⟨id, hid⟩ => ⟨⟨certSerial, id⟩, rfl, hid⟩, ?_⟩
      rintro ⟨⟨c, id⟩, rfl, hid⟩
      exact ⟨id, hid⟩
  | closeAll =>
    refine h.close (fun g => ⟨by simp, by simp⟩) rfl (fun g t => ?_) (fun t => ?_)
      (ConnectionRegistry.NoEmpty.closeAll _)
    · rw [ConnectionRegistry.entry_closeAll]
      simp [Event.covers]
    · rw [ConnectionRegistry.mem_cancelled_closeAll]
      simp [Event.covers]

theorem run {es : List Event} {s : Connections} (run : Trace.Run Step {} es s) : Accounts es s :=
  run.history accounts_nil fun _ _ _ _ _ h hstep => h.step hstep

/-- The count that a close returns is the number of the open connections that it covers. -/
theorem counts {e : Event} {s' : Connections} {n : ℕ} (hstep : Step s e s')
    (hn : e.closed = some n) : s.registry.Counts e.covers n := by
  cases hstep with
  | register certSerial => cases hn
  | drop hguard => cases hn
  | closeDevice certSerial =>
    cases hn
    exact s.registry.counts_closeDevice certSerial
  | closeAll =>
    cases hn
    exact s.registry.counts_closeAll

end Accounts

/-- **The cancelled tokens are those of the connections that a close found open, every close counts
the connections that it newly closed, a dropped guard removes no entry but its own, and no
certificate keeps an empty map.** -/
theorem registry_accounts {es : List Event} {s : Connections} (run : Trace.Run Step {} es s) :
    (∀ g, .register g ∈ es → (g.id ∈ s.registry.cancelled ↔ IsClosed es g)) ∧
    (∀ es₁ e es₂ n, es = es₁ ++ e :: es₂ → e.closed = some n →
      ∃ newly : List ConnectionGuard, newly.Nodup ∧ newly.length = n ∧
        ∀ g, g ∈ newly ↔ IsClosed (es₁ ++ [e]) g ∧ ¬ IsClosed es₁ g) ∧
    (∀ g ∈ s.guards, ∀ g' ≠ g, (s.registry.deregister g).entry g' = s.registry.entry g') ∧
    s.registry.NoEmpty := by
  have h := Accounts.run run
  refine ⟨fun g hg => ?_, ?_, fun g _ g' hne => ?_, h.noEmpty⟩
  · rw [h.cancelled]
    refine ⟨fun ⟨g', hid, hclosed⟩ => ?_, fun hclosed => ⟨g, rfl, hclosed⟩⟩
    rwa [h.unique g g' hg hclosed.register_mem hid.symm]
  · rintro es₁ e es₂ n rfl hn
    obtain ⟨s₁, h₁, h₂⟩ := run.of_append
    cases h₂ with
    | cons hstep _ =>
      have hbefore := Accounts.run h₁
      obtain ⟨newly, hnodup, hlength, hmem⟩ := Accounts.counts hstep hn
      refine ⟨newly, hnodup, hlength, fun g => ?_⟩
      rw [hmem, hbefore.entry_isSome, isClosed_append]
      tauto
  · rw [ConnectionRegistry.entry_deregister, if_neg hne]

/-- A device is revoked, connects again, and the guard of its first connection is dropped. -/
theorem registry_accounts_reconnect : ∃ s, Trace.Run Step {}
      [.register ⟨"0a".toList, 0⟩, .closeDevice ("0a".toList) 1, .register ⟨"0a".toList, 1⟩,
        .drop ⟨"0a".toList, 0⟩] s ∧
    s.registry.entry ⟨"0a".toList, 1⟩ = some 1 ∧ s.registry.cancelled = [0] ∧
    IsClosed [.register ⟨"0a".toList, 0⟩, .closeDevice ("0a".toList) 1, .register ⟨"0a".toList, 1⟩,
      .drop ⟨"0a".toList, 0⟩] ⟨"0a".toList, 0⟩ ∧ s.registry.NoEmpty := by
  have run : Trace.Run Step {}
      [.register ⟨"0a".toList, 0⟩, .closeDevice ("0a".toList) 1, .register ⟨"0a".toList, 1⟩,
        .drop ⟨"0a".toList, 0⟩] _ :=
    .cons (.register {} ("0a".toList)) (.cons (.closeDevice _ ("0a".toList))
      (.cons (.register _ ("0a".toList)) (.cons (.drop _ (by decide)) (.nil _))))
  have haccounts := registry_accounts run
  refine ⟨_, run, by decide, by decide, (haccounts.1 _ (by simp)).1 (by decide), haccounts.2.2.2⟩

end Hub

end Wkp
