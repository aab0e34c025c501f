import Wkp.Hub.TenantRepo
import Wkp.Lib.Program

/-!
# The index worker

The loop of the process that indexes a tenant, git read by git read, while pushes arrive.

* `Hub.IndexWorker.indexTenant` : `index_tenant` as a program.  Where nothing moves it is
  `Hub.indexTenant` (`IndexWorker.eval_indexTenant`).
* `Hub.IndexWorker.keepsIndex_iff` : **a failed read keeps the last index, unless it was the listing
  that failed.**
* `Hub.IndexWorker.Step` : the worker and the pushes, one read at a time.
* `Hub.IndexWorker.rightAtRest` : **the index at rest is that of `HEAD`, if no read sees another
  commit than the one that its tick began with.**
-/

namespace Wkp

open Rust

namespace Hub

namespace IndexWorker

/-! ### Reading the repository -/

/-- What a run does outside of the process. -/
inductive Call
  /-- `git ls-tree -r --name-only HEAD`. -/
  | listFilesAtRef
  /-- `git cat-file -p HEAD:path`. -/
  | readBlob (path : Str)
  /-- The finished index takes the place of `index.db`. -/
  | publish (db : Index.Db)
  deriving DecidableEq

/-- The reply. -/
abbrev Reply : Call → Type
  | .listFilesAtRef => Except Str (List Str)
  | .readBlob _ => Except Str Content
  | .publish _ => Unit

/-- The loop over the paths. -/
def indexPaths : List Str → Progress → Program Reply (Except TenantError Progress)
  | [], acc => pure (.ok acc)
  | path :: paths, acc =>
    if !".md".toList.isSuffixOf path then indexPaths paths acc
    else (Program.perform (Call.readBlob path)).bind fun blob => match blob with
      | .error e => pure (.error (.git e))
      | .ok blob => indexPaths paths (indexBlob acc path blob)

/-- `build_index`: an index that cannot be built is not published. -/
def buildIndex (today : ℕ) : Except TenantError Progress →
    Program Reply (Except TenantError IndexSummary)
  | .error e => pure (.error e)
  | .ok done => match Index.buildIndex today done.items with
    | .error e => pure (.error (.index e))
    | .ok db => (Program.perform (Call.publish db)).bind fun _ => pure (.ok done.summary)

/-- `index_tenant`.  A listing that fails is taken for that of an empty repository. -/
def indexTenant (today : ℕ) : Program Reply (Except TenantError IndexSummary) :=
  (Program.perform Call.listFilesAtRef).bind fun paths =>
    (indexPaths (paths.toOption.getD []) ⟨⟨[], []⟩, []⟩).bind (buildIndex today)

/-- The replies of a repository, and `index.db` after the call. -/
def answer (head : Option Files) (index : Option Index.Db) : (c : Call) → Reply c × Option Index.Db
  | .listFilesAtRef => (Git.listFilesAtRef head, index)
  | .readBlob path => (Git.readBlob head path, index)
  | .publish db => ((), some db)

/-! ### A run where nothing moves -/

theorem eval_indexPaths (head : Option Files) (index : Option Index.Db) (paths : List Str)
    (acc : Progress) : ((indexPaths paths acc).eval (answer head) index).2 =
      (paths.foldlM (indexPath head) acc, index) := by
  induction paths generalizing acc with
  | nil => rfl
  | cons path paths ih =>
    rw [indexPaths, List.foldlM_cons, indexPath]
    split_ifs with hmd
    · exact ih acc
    · rw [Program.perform_bind, Program.eval]
      simp only [answer]
      cases Git.readBlob head path with
      | error e => rfl
      | ok blob => exact ih _

/-- What a run leaves: the summary and the new index, or the error and the old index. -/
def settled (index : Option Index.Db) (r : Except TenantError (IndexSummary × Index.Db)) :
    Except TenantError IndexSummary × Option Index.Db :=
  match r with
  | .error e => (.error e, index)
  | .ok (summary, db) => (.ok summary, some db)

/-- **Where nothing moves and nothing fails, a run indexes the tree.** -/
theorem eval_indexTenant (today : ℕ) (head : Option Files) (index : Option Index.Db) :
    ((indexTenant today).eval (answer head) index).2 =
      settled index (Hub.indexTenant today head) := by
  rw [indexTenant, Program.perform_bind, Program.eval_call, Program.eval_bind, Hub.indexTenant]
  simp only [answer]
  rw [eval_indexPaths]
  cases ((Git.listFilesAtRef head).toOption.getD []).foldlM (indexPath head) ⟨⟨[], []⟩, []⟩ with
  | error e => rfl
  | ok done =>
    dsimp only
    rw [buildIndex]
    cases hdb : Index.buildIndex today done.items with
    | error e =>
      change _ = settled index (do let db ← (Index.buildIndex today done.items).mapError _; _)
      rw [hdb]
      rfl
    | ok db =>
      change _ = settled index (do let db ← (Index.buildIndex today done.items).mapError _; _)
      rw [hdb]
      rfl

/-! ### Failed reads -/

/-- The reply of a git read that failed. -/
inductive Fails : (c : Call) → Reply c → Prop
  | listFilesAtRef (e : Str) : Fails .listFilesAtRef (.error e)
  | readBlob (path e : Str) : Fails (.readBlob path) (.error e)

/-- A call is answered, or it is a git read that fails. -/
inductive Exec (head : Option Files) :
    Option Index.Db → Program.Exchange Reply → Option Index.Db → Prop
  | answers (index : Option Index.Db) (c : Call) :
      Exec head index ⟨c, (answer head index c).1⟩ (answer head index c).2
  | fails (index : Option Index.Db) {c : Call} {r : Reply c} (h : Fails c r) :
      Exec head index ⟨c, r⟩ index

/-- `last_indexed_head` after a run for a commit. -/
def lastIndexedHead {κ : Type} (head : κ) (last : Option κ) :
    Except TenantError IndexSummary → Option κ
  | .ok _ => some head
  | .error _ => last

/-- A run returns an error and leaves everything as it was, so that the next tick tries again. -/
structure KeepsIndex {κ : Type} (head : κ) (last : Option κ) (index index' : Option Index.Db)
    (r : Except TenantError IndexSummary) : Prop where
  /-- `index_tenant` returns an error. -/
  err : r.isOk = false
  /-- `index.db` is unchanged. -/
  index : index' = index
  /-- `last_indexed_head` is unchanged. -/
  last : lastIndexedHead head last r = last

section

variable {head : Option Files} {index index' : Option Index.Db}
  {es : List (Program.Exchange Reply)}

theorem Exec.readBlob {path : Str} {r : Reply (.readBlob path)}
    (h : Exec head index ⟨.readBlob path, r⟩ index') : index' = index := by
  cases h with
  | answers => rfl
  | fails => rfl

theorem returns_indexPaths {paths : List Str} {acc : Progress} {r : Except TenantError Progress}
    (run : Program.Returns (Exec head) (indexPaths paths acc) index es r index') :
    index' = index ∧ (∀ e ∈ es, ∃ path, e.1 = .readBlob path) ∧
      ((∃ e ∈ es, Fails e.1 e.2) → ∃ e, r = .error e) := by
  induction paths generalizing acc es with
  | nil =>
    obtain ⟨rfl, rfl, rfl⟩ := Program.returns_pure.1 run
    simp
  | cons path paths ih =>
    rw [indexPaths] at run
    split_ifs at run
    · exact ih run
    rw [Program.perform_bind] at run
    obtain ⟨blob, index₁, es, rfl, hexec, hrest⟩ := Program.returns_call.1 run
    obtain rfl := hexec.readBlob
    cases blob with
    | error e =>
      obtain ⟨rfl, rfl, rfl⟩ := Program.returns_pure.1 hrest
      exact ⟨rfl, fun e' he' => ⟨path, by rw [List.mem_singleton.1 he']⟩, fun _ => ⟨_, rfl⟩⟩
    | ok blob =>
      obtain ⟨hindex, hcalls, hfails⟩ := ih hrest
      refine ⟨hindex, List.forall_mem_cons.2 ⟨⟨path, rfl⟩, hcalls⟩, ?_⟩
      rintro ⟨e, he, hfail⟩
      rcases List.mem_cons.1 he with rfl | he
      · cases hfail
      · exact hfails ⟨e, he, hfail⟩

theorem returns_buildIndex {today : ℕ} {done : Except TenantError Progress}
    {r : Except TenantError IndexSummary}
    (run : Program.Returns (Exec head) (buildIndex today done) index es r index') :
    (∀ e ∈ es, ∃ db, e.1 = .publish db) ∧
      ((∃ e, done = .error e) → r.isOk = false ∧ index' = index) := by
  rw [buildIndex.eq_def] at run
  cases done with
  | error e =>
    obtain ⟨rfl, rfl, rfl⟩ := Program.returns_pure.1 run
    exact ⟨fun e he => absurd he List.not_mem_nil, fun _ => ⟨rfl, rfl⟩⟩
  | ok done =>
    refine ⟨?_, fun h => by obtain ⟨e, he⟩ := h; cases he⟩
    dsimp only at run
    cases hdb : Index.buildIndex today done.items with
    | error e =>
      rw [hdb] at run
      obtain ⟨rfl, -⟩ := Program.returns_pure.1 run
      exact fun e he => absurd he List.not_mem_nil
    | ok db =>
      rw [hdb] at run
      dsimp only at run
      rw [Program.perform_bind] at run
      obtain ⟨u, index₁, es, rfl, -, hrest⟩ := Program.returns_call.1 run
      obtain ⟨rfl, -⟩ := Program.returns_pure.1 hrest
      exact fun e he => ⟨db, by rw [List.mem_singleton.1 he]⟩

/-- **A failed read keeps the last index, unless it was the listing that failed.** -/
theorem keepsIndex_iff {κ : Type} (commit : κ) (last : Option κ) {tree : Files} {today : ℕ}
    {r : Except TenantError IndexSummary}
    (run : Program.Returns (Exec (some tree)) (indexTenant today) index es r index')
    (hfails : ∃ e ∈ es, Fails e.1 e.2) : KeepsIndex commit last index index' r ↔
      ∀ e, ⟨.listFilesAtRef, .error e⟩ ∉ es := by
  rw [indexTenant, Program.perform_bind] at run
  obtain ⟨paths, index₁, es, rfl, hlist, hrest⟩ := Program.returns_call.1 run
  obtain rfl : index₁ = index := by
    cases hlist with
    | answers => rfl
    | fails => rfl
  obtain ⟨es₁, es₂, done, index₁, rfl, run₁, run₂⟩ := Program.returns_bind.1 hrest
  obtain ⟨rfl, hreads, herror⟩ := returns_indexPaths run₁
  obtain ⟨hpublish, hkept⟩ := returns_buildIndex run₂
  cases paths with
  | error e =>
    -- the listing fails: the index of an empty repository is published
    obtain ⟨rfl, rfl, -⟩ := Program.returns_pure.1 run₁
    have hok : r.isOk = true := by
      obtain ⟨u, index₂, es, -, -, hrest⟩ := Program.returns_call.1 run₂
      obtain ⟨-, rfl, -⟩ := Program.returns_pure.1 hrest
      rfl
    constructor
    · intro h
      rw [h.err] at hok
      cases hok
    · exact fun h => absurd List.mem_cons_self (h e)
  | ok paths =>
    have hnot : ∀ e, (⟨.listFilesAtRef, .error e⟩ : Program.Exchange Reply) ∉
        ⟨.listFilesAtRef, .ok paths⟩ :: (es₁ ++ es₂) := by
      intro e he
      rcases List.mem_cons.1 he with he | he
      · cases he
      rcases List.mem_append.1 he with he | he
      · obtain ⟨path, hpath⟩ := hreads _ he
        cases hpath
      · obtain ⟨db, hdb⟩ := hpublish _ he
        cases hdb
    refine ⟨fun _ => hnot, fun _ => ?_⟩
    obtain ⟨e, he, hfail⟩ := hfails
    have hmem : e ∈ es₁ := by
      rcases List.mem_cons.1 he with rfl | he
      · cases hfail
      rcases List.mem_append.1 he with he | he
      · exact he
      · obtain ⟨db, hdb⟩ := hpublish _ he
        obtain ⟨c, reply⟩ := e
        obtain rfl : c = .publish db := hdb
        cases hfail
    obtain ⟨herr, hindex⟩ := hkept (herror ⟨e, hmem, hfail⟩)
    refine ⟨herr, hindex, ?_⟩
    cases r with
    | error e => rfl
    | ok summary => cases herr

end

/-- A repository with one file. -/
def exampleTree : Files := AList.singleton "a.md".toList (.text "x".toList)

/-- The blob cannot be read: the index that was there is kept. -/
theorem keepsIndex_iff_exampleTree :
    KeepsIndex () none (some Index.createSchema) (some Index.createSchema)
        (.error (.git "fatal".toList)) ↔
      ∀ e, (⟨.listFilesAtRef, .error e⟩ : Program.Exchange Reply) ∉
        [⟨.listFilesAtRef, .ok ["a.md".toList]⟩, ⟨.readBlob "a.md".toList, .error "fatal".toList⟩] := by
  have hlist : Exec (some exampleTree) (some Index.createSchema)
      ⟨.listFilesAtRef, .ok ["a.md".toList]⟩ (some Index.createSchema) := by
    have hanswer : (answer (some exampleTree) (some Index.createSchema) .listFilesAtRef).1 =
        .ok ["a.md".toList] := by decide +kernel
    rw [← hanswer]
    exact .answers _ _
  have run : Program.Returns (Exec (some exampleTree)) (indexTenant 20000) (some Index.createSchema)
      [⟨.listFilesAtRef, .ok ["a.md".toList]⟩, ⟨.readBlob "a.md".toList, .error "fatal".toList⟩]
      (.error (.git "fatal".toList)) (some Index.createSchema) :=
    Program.returns_call.2 ⟨_, _, _, rfl, hlist,
      Program.returns_call.2 ⟨_, _, _, rfl, .fails _ (.readBlob _ _), .nil _⟩⟩
  exact keepsIndex_iff () none run ⟨_, List.mem_cons_of_mem _ List.mem_cons_self, .readBlob _ _⟩

/-- The tree cannot be listed: an empty index is published as a success. -/
theorem not_keepsIndex : ¬ ∀ (tree : Files) (today : ℕ) (index index' : Option Index.Db)
    (es : List (Program.Exchange Reply)) (r : Except TenantError IndexSummary),
    Program.Returns (Exec (some tree)) (indexTenant today) index es r index' →
    (∃ e ∈ es, Fails e.1 e.2) → KeepsIndex () none index index' r := by
  intro h
  have hkeeps := h exampleTree 20000 none (some Index.createSchema)
    [⟨.listFilesAtRef, .error "fatal".toList⟩, ⟨.publish Index.createSchema, ()⟩] (.ok ⟨[], []⟩)
    (Program.returns_call.2 ⟨_, _, _, rfl, .fails _ (.listFilesAtRef _),
      Program.returns_call.2 ⟨_, _, _, rfl, .answers _ (.publish _), .nil _⟩⟩)
    ⟨_, List.mem_cons_self, .listFilesAtRef _⟩
  cases hkeeps.err

/-! ### Pushes while it runs -/

/-- The repository, the index, and the worker. -/
structure State (κ : Type) where
  /-- The commit that `HEAD` resolves to. -/
  head : Option κ := none
  /-- `index.db`. -/
  index : Option Index.Db := none
  /-- `last_indexed_head`. -/
  last : Option κ := none
  /-- The tick that is running: the commit that it began with, and the rest of its run. -/
  tick : Option (κ × Program Reply (Except TenantError IndexSummary)) := none

/-- What happens. -/
inductive Event (κ : Type)
  | push (commit : κ)
  | poll (today : ℕ)
  | call (c : Call)
  | finish

/-- A call that asks for something at `HEAD`. -/
def Call.IsRead : Call → Prop
  | .publish _ => False
  | _ => True

section

variable {κ : Type} [DecidableEq κ]

/-- The worker wakes up and reads `HEAD`. -/
def State.poll (s : State κ) (today : ℕ) : State κ :=
  match s.head with
  | none => s
  | some head =>
    if s.head = s.last then s else { s with tick := some (head, indexTenant today) }

variable (tree : κ → Files)

/-- A push moves `HEAD`, or the worker makes one call. -/
inductive Step : State κ → Event κ → State κ → Prop
  | push (s : State κ) (commit : κ) : Step s (.push commit) { s with head := some commit }
  | poll {s : State κ} (hidle : s.tick = none) (today : ℕ) : Step s (.poll today) (s.poll today)
  | call {s : State κ} {head : κ} {c : Call}
      {k : Reply c → Program Reply (Except TenantError IndexSummary)}
      (htick : s.tick = some (head, .call c k)) : Step s (.call c) { s with
        index := (answer (s.head.map tree) s.index c).2
        tick := some (head, k (answer (s.head.map tree) s.index c).1) }
  | finish {s : State κ} {head : κ} {r : Except TenantError IndexSummary}
      (htick : s.tick = some (head, .pure r)) : Step s .finish { s with
        last := lastIndexedHead head s.last r
        tick := none }

/-- A read of a tick sees the commit that the tick began with. -/
def Steady (s : State κ) : Event κ → Prop
  | .call c => c.IsRead → ∀ head p, s.tick = some (head, p) → s.head = some head
  | _ => True

/-- A step whose read, if it makes one, sees that commit. -/
def SteadyStep (s : State κ) (e : Event κ) (s' : State κ) : Prop := Step tree s e s' ∧ Steady s e

/-- The database is an index of the tree. -/
def IsIndexOf (files : Files) (index : Option Index.Db) : Prop :=
  ∃ today summary db, Hub.indexTenant today (some files) = .ok (summary, db) ∧ index = some db

/-- At rest, when `HEAD` is the commit last indexed, the index is that of its tree. -/
def RightAtRest (s : State κ) : Prop :=
  s.tick = none → ∀ commit, s.last = some commit → s.head = some commit →
    IsIndexOf (tree commit) s.index

/-- The index is that of the commit last indexed; while a tick runs, the index that it began with is,
and the rest of its run does what the run would do at its commit. -/
structure Tracks (s : State κ) : Prop where
  /-- At rest. -/
  rest : s.tick = none → ∀ commit, s.last = some commit → IsIndexOf (tree commit) s.index
  /-- While a tick runs. -/
  running : ∀ head p, s.tick = some (head, p) → ∃ index today,
    (∀ commit, s.last = some commit → IsIndexOf (tree commit) index) ∧
      (p.eval (answer (some (tree head))) s.index).2 =
        settled index (Hub.indexTenant today (some (tree head)))

variable {tree}

theorem Tracks.poll {s : State κ} (h : Tracks tree s) (hidle : s.tick = none) (today : ℕ) :
    Tracks tree (s.poll today) := by
  rw [State.poll]
  cases hhead : s.head with
  | none => exact h
  | some head =>
    dsimp only
    split_ifs
    · exact h
    · refine ⟨fun hrest => (Option.some_ne_none _ hrest).elim, fun head' p hp => ?_⟩
      obtain ⟨rfl, rfl⟩ := Prod.mk.inj (Option.some.inj hp)
      exact ⟨s.index, today, h.rest hidle, eval_indexTenant today _ s.index⟩

omit [DecidableEq κ] in
/-- A call is answered as at the commit of the tick. -/
theorem answer_of_steady {s : State κ} {c : Call} (hsteady : Steady s (.call c)) {head : κ}
    {p : Program Reply (Except TenantError IndexSummary)} (htick : s.tick = some (head, p)) :
    answer (s.head.map tree) s.index c = answer (some (tree head)) s.index c := by
  cases c with
  | publish db => rfl
  | listFilesAtRef =>
    rw [hsteady trivial head p htick]
    rfl
  | readBlob path =>
    rw [hsteady trivial head p htick]
    rfl

/-- **What a steady step keeps.** -/
theorem Tracks.step {s s' : State κ} {e : Event κ} (h : Tracks tree s)
    (hstep : SteadyStep tree s e s') : Tracks tree s' := by
  obtain ⟨hstep, hsteady⟩ := hstep
  cases hstep with
  | push commit => exact ⟨h.rest, h.running⟩
  | poll hidle today => exact h.poll hidle today
  | @call head c k htick =>
    obtain ⟨index, today, hlast, heval⟩ := h.running head _ htick
    refine ⟨fun hrest => (Option.some_ne_none _ hrest).elim, fun head' p hp => ?_⟩
    obtain ⟨rfl, rfl⟩ := Prod.mk.inj (Option.some.inj hp)
    refine ⟨index, today, hlast, ?_⟩
    rw [Program.eval_call] at heval
    rw [answer_of_steady hsteady htick]
    exact heval
  | @finish head r htick =>
    obtain ⟨index, today, hlast, heval⟩ := h.running head _ htick
    refine ⟨fun _ commit hcommit => ?_, fun head' p hp => (Option.some_ne_none _ hp.symm).elim⟩
    dsimp only at hcommit ⊢
    cases hindex : Hub.indexTenant today (some (tree head)) with
    | error e =>
      rw [hindex] at heval
      obtain ⟨rfl, hdb⟩ := Prod.mk.inj heval
      rw [hdb]
      exact hlast commit hcommit
    | ok done =>
      rw [hindex] at heval
      obtain ⟨rfl, hdb⟩ := Prod.mk.inj heval
      obtain rfl := Option.some.inj hcommit
      exact ⟨today, done.1, done.2, hindex, hdb⟩

/-- **The index at rest is that of `HEAD`**, when no read saw another commit than the one that its
tick began with. -/
theorem rightAtRest {s₀ s : State κ} {es : List (Event κ)} (hidle : s₀.tick = none)
    (hlast : s₀.last = none) (run : Trace.Run (SteadyStep tree) s₀ es s) : RightAtRest tree s := by
  have htracks : Tracks tree s := by
    refine run.invariant (fun _ _ _ => Tracks.step) ⟨fun _ commit hcommit => ?_, fun head p hp => ?_⟩
    · rw [hlast] at hcommit
      cases hcommit
    · rw [hidle] at hp
      cases hp
  exact fun hrest commit hcommit _ => htracks.rest hrest commit hcommit

/-- The rest of a tick runs to its end while `HEAD` is at its commit. -/
theorem run_calls (head : κ) (index : Option Index.Db) (last : Option κ)
    (p : Program Reply (Except TenantError IndexSummary)) : ∃ es,
      Trace.Run (SteadyStep tree) ⟨some head, index, last, some (head, p)⟩ es
        ⟨some head, (p.eval (answer (some (tree head))) index).2.2, last,
          some (head, .pure (p.eval (answer (some (tree head))) index).2.1)⟩ := by
  induction p generalizing index with
  | pure r => exact ⟨[], .nil _⟩
  | call c k ih =>
    have hsteady : Steady ⟨some head, index, last, some (head, .call c k)⟩ (.call c) := by
      intro _ head' p hp
      obtain ⟨rfl, -⟩ := Prod.mk.inj (Option.some.inj hp)
      rfl
    obtain ⟨es, run⟩ := ih (answer (some (tree head)) index c).1 (answer (some (tree head)) index c).2
    exact ⟨_, .cons ⟨.call rfl, hsteady⟩ run⟩

/-- **A tick during which nothing moves indexes the tree of `HEAD`.** -/
theorem run_tick {head : κ} (index : Option Index.Db) {last : Option κ} (hlast : some head ≠ last)
    (today : ℕ) : ∃ es, Trace.Run (SteadyStep tree) ⟨some head, index, last, none⟩
      (.poll today :: es) ⟨some head, (settled index (Hub.indexTenant today (some (tree head)))).2,
        lastIndexedHead head last (settled index (Hub.indexTenant today (some (tree head)))).1,
        none⟩ := by
  obtain ⟨es, run⟩ : ∃ es, Trace.Run (SteadyStep tree) _ es _ :=
    run_calls head index last (indexTenant today)
  rw [← eval_indexTenant]
  have hpoll : (⟨some head, index, last, none⟩ : State κ).poll today =
      ⟨some head, index, last, some (head, indexTenant today)⟩ := if_neg hlast
  have hfirst : Step tree ⟨some head, index, last, none⟩ (.poll today) _ := .poll rfl today
  rw [hpoll] at hfirst
  exact ⟨_, .cons ⟨hfirst, trivial⟩ (run.append (.single ⟨.finish rfl, trivial⟩))⟩

end

/-- Two commits: a file, and nothing. -/
def exampleCommits : Bool → Files
  | true => exampleTree
  | false => ∅

/-- The rest of a tick that has listed nothing. -/
def examplePublish : Program Reply (Except TenantError IndexSummary) :=
  .call (.publish Index.createSchema) fun _ => .pure (.ok ⟨[], []⟩)

/-- `HEAD` is at the second commit, in a tick that began with either. -/
def exampleState (commit : Bool) (index : Option Index.Db)
    (p : Program Reply (Except TenantError IndexSummary)) : State Bool :=
  { head := some false, index := index, tick := some (commit, p) }

theorem example_list (commit : Bool) : Step exampleCommits
    (exampleState commit none (indexTenant 20000)) (.call .listFilesAtRef)
      (exampleState commit none examplePublish) := by
  have hlist : answer (some ∅) none .listFilesAtRef = (.ok [], none) := by decide +kernel
  have step := @Step.call Bool _ exampleCommits (exampleState commit none (indexTenant 20000))
    commit .listFilesAtRef _ rfl
  change Step _ _ _ (exampleState commit (answer (some ∅) none .listFilesAtRef).2
    ((indexPaths ((answer (some ∅) none .listFilesAtRef).1.toOption.getD []) ⟨⟨[], []⟩, []⟩).bind
      (buildIndex 20000))) at step
  rw [hlist] at step
  exact step

theorem example_publish (commit : Bool) : Step exampleCommits
    (exampleState commit none examplePublish) (.call (.publish Index.createSchema))
      (exampleState commit (some Index.createSchema) (.pure (.ok ⟨[], []⟩))) :=
  Step.call (s := exampleState commit none examplePublish) rfl

theorem example_finish (commit : Bool) : Step exampleCommits
    (exampleState commit (some Index.createSchema) (.pure (.ok ⟨[], []⟩))) .finish
      { head := some false, index := some Index.createSchema, last := some commit } :=
  Step.finish (s := exampleState commit (some Index.createSchema) (.pure (.ok ⟨[], []⟩))) rfl

/-- The first commit is pushed when the second has been listed, and is indexed by the next tick. -/
theorem rightAtRest_exampleCommits : ∃ es s, Trace.Run (SteadyStep exampleCommits) {}
    ([.push false, .poll 20000, .call .listFilesAtRef, .push true,
      .call (.publish Index.createSchema), .finish, .poll 20000] ++ es) s ∧
    s.head = some true ∧ s.last = some true ∧ RightAtRest exampleCommits s := by
  have hsteady : Steady (exampleState false none (indexTenant 20000)) (.call .listFilesAtRef) := by
    intro _ head p hp
    obtain ⟨rfl, -⟩ := Prod.mk.inj (Option.some.inj hp)
    rfl
  have hfinish : Step exampleCommits ⟨some true, some Index.createSchema, none,
      some (false, .pure (.ok ⟨[], []⟩))⟩ .finish _ := .finish rfl
  have hpushed : Trace.Run (SteadyStep exampleCommits) {}
      [.push false, .poll 20000, .call .listFilesAtRef, .push true,
        .call (.publish Index.createSchema), .finish]
      ⟨some true, some Index.createSchema, some false, none⟩ :=
    .cons ⟨.push _ false, trivial⟩ (.cons ⟨.poll rfl 20000, trivial⟩
      (.cons ⟨example_list false, hsteady⟩ (.cons ⟨.push _ true, trivial⟩
        (.cons ⟨.call rfl, fun h => h.elim⟩ (.single ⟨hfinish, trivial⟩)))))
  obtain ⟨es, hticked⟩ : ∃ es, Trace.Run (SteadyStep exampleCommits) _ _ _ :=
    run_tick (some Index.createSchema) (show some true ≠ some false by decide) 20000
  have run := hpushed.append hticked
  have hok : (Hub.indexTenant 20000 (some exampleTree)).isOk = true := by decide +kernel
  refine ⟨es, _, run, rfl, ?_, rightAtRest rfl rfl run⟩
  change lastIndexedHead true _ (settled _ (Hub.indexTenant 20000 (some exampleTree))).1 = some true
  cases hindex : Hub.indexTenant 20000 (some exampleTree) with
  | error e =>
    rw [hindex] at hok
    cases hok
  | ok done => rfl

theorem not_isIndexOf_exampleTree : ¬ IsIndexOf exampleTree (some Index.createSchema) := by
  rintro ⟨today, summary, db, hindex, hdb⟩
  obtain rfl := Option.some.inj hdb
  obtain ⟨hknown, hindexed⟩ := indexTenant_spec hindex
  have hmem : "a.md".toList ∈ summary.indexed := by
    refine (hindexed _).2 ⟨by decide +kernel, rfl, .text "x".toList, rfl, rfl, _, rfl, by decide⟩
  cases (hknown _).2 hmem

/-- `HEAD` moves away while the tick reads, and back afterwards: the index of the other commit stays. -/
theorem not_rightAtRest : ¬ ∀ (tree : Bool → Files) (es : List (Event Bool)) (s : State Bool),
    Trace.Run (Step tree) {} es s → RightAtRest tree s := by
  intro h
  have run : Trace.Run (Step exampleCommits) {}
      [.push true, .poll 20000, .push false, .call .listFilesAtRef,
        .call (.publish Index.createSchema), .finish, .push true]
      { head := some true, index := some Index.createSchema, last := some true } :=
    .cons (.push _ true) (.cons (.poll rfl 20000) (.cons (.push _ false) (.cons (example_list true)
      (.cons (example_publish true) (.cons (example_finish true) (.single (.push _ true)))))))
  exact not_isIndexOf_exampleTree (h _ _ _ run rfl true rfl rfl)

end IndexWorker

end Hub

end Wkp
