import Wkp.Cli.Filter
import Wkp.Core.Ledger
import Wkp.Git.Changes
import Wkp.Git.Remote
import Mathlib.Data.List.Dedup

/-!
# `wkp index`

The incremental run: what git reports of the store, against the paths that the index has rows for.

* `Cli.runIndexImpl` : one run.
* `Cli.Indexed` : a store with its index and the ledger of what the index was told; `Cli.Act` : what
  happens to a store, runs among it.
* `Cli.Indexed.run_spec` : the paths and the entries that a run leaves.
* `Cli.EveryRun` : what holds of every run in a history.
-/

namespace Wkp

open Rust Git Index

namespace Cli

/-! ### The run -/

/-- The order in which the members of a hash set come. -/
structure HashOrder where
  /-- The members of a set, in that order. -/
  walk : List Str → List Str
  /-- They are the members of the set. -/
  mem : ∀ s p, p ∈ walk s ↔ p ∈ s
  /-- Each comes once. -/
  nodup : ∀ s, (walk s).Nodup

/-- An embedding endpoint. -/
structure Embedder where
  /-- The configuration, or why the key file cannot be read. -/
  config : Except Str Unit
  /-- The vector of a text, unless the endpoint fails. -/
  embedRemote : Str → Option (List UInt32)

/-- Why a run fails. -/
inductive IndexError
  | noTable
  | reading (relative error : Str)
  | embed (error : Str)
  | update (failure : Failure)

/-- What a run did. -/
structure IndexSummary where
  /-- The paths that were not in the index. -/
  added : ℕ
  /-- The paths that were read again. -/
  modified : ℕ
  /-- The paths that are gone. -/
  deleted : ℕ

/-- The extension of the path is `md`. -/
def isMarkdown (p : Str) : Bool := decide (Path.extension p = some "md".toList)

/-- The markdown files that are there, by the word of git. -/
def currentPaths (changes : ChangeSet) (tracked : List Str) : List Str :=
  let gone := changes.deleted ++ changes.renamed.map Renamed.source
  ((tracked ++ changes.added ++ changes.renamed.map Renamed.target).filter isMarkdown).filter
    (· ∉ gone)

/-- The markdown files that git reports as modified, or as moved there. -/
def dirtyPaths (changes : ChangeSet) : List Str :=
  (changes.modified ++ changes.renamed.map Renamed.target).filter isMarkdown

/-- The last commit that touched the path is signed by a human. -/
def humanSigned (head : Option Commit) (path : Str) : Bool :=
  match lastSignerForPath head path with
  | some (_, .human) => true
  | _ => false

/-- The item of a file: its text from the worktree, its signer from the history. -/
def readItem (r : Repo) (relative : Str) : Except IndexError Item :=
  match r.worktree.readToString relative with
  | .error e => .error (.reading relative e)
  | .ok contents => .ok {
      path := relative
      frontmatter := (Frontmatter.parse contents).frontmatter
      body := (Frontmatter.parse contents).body
      humanSigned := humanSigned r.head relative }

/-- The item with its embedding, unless the endpoint fails. -/
def Embedder.attach (embedder : Embedder) (item : Item) : Item :=
  match embedder.embedRemote (item.frontmatter.title.getD [] ++ "\n\n".toList ++ item.body) with
  | some vector => { item with embedding := some vector }
  | none => item

/-- Embed every item. -/
def embedUpserts (embedder : Option Embedder) (items : List Item) : Except IndexError (List Item) :=
  match embedder with
  | none => .ok items
  | some embedder => match embedder.config with
    | .error e => .error (.embed e)
    | .ok () => .ok (items.map embedder.attach)

/-- How a run is made: when, in which order it walks its sets, and whether it embeds. -/
structure IndexCall where
  /-- The day, counted from 1970-01-01. -/
  today : ℕ
  /-- The order of its sets. -/
  order : HashOrder
  /-- The endpoint, if one is given. -/
  embedder : Option Embedder := none

section Run

variable (F : Filters) (V : View)

/-- What a run has for the index. -/
structure IndexBatch where
  /-- The items that it read. -/
  upserts : List Item
  /-- The paths that are gone. -/
  deletedPaths : List Str
  /-- What it did. -/
  summary : IndexSummary

/-- Read what is new to the index and what git reports as modified. -/
def gatherBatch (call : IndexCall) (r : Repo) (db : Db) : Except IndexError IndexBatch := do
  let changes := detectChanges F V r
  let current := currentPaths changes (listTrackedFiles r)
  let known := knownPaths db
  let added := call.order.walk (current.filter (· ∉ known))
  let dirty := dirtyPaths changes
  let modified := call.order.walk (current.filter fun p => p ∈ known ∧ p ∈ dirty)
  let deleted := call.order.walk (known.filter (· ∉ current))
  let upserts ← (added ++ modified).mapM (readItem r)
  let upserts ← embedUpserts call.embedder upserts
  return ⟨upserts, deleted, ⟨added.length, modified.length, deleted.length⟩⟩

/-- `wkp index`: what it did, and the index afterwards. -/
def runIndexImpl (call : IndexCall) (r : Repo) (index : Option Db) :
    Except IndexError (IndexSummary × Db) :=
  match index with
  | none => .error .noTable
  | some db => do
    let batch ← gatherBatch F V call r db
    match updateIndex call.today (some db) batch.upserts batch.deletedPaths with
    | .error failure => .error (.update failure)
    | .ok db' => return (batch.summary, db')

end Run

/-! ### What git reports -/

section Reported

variable {F : Filters} {V : View} {r : Repo}

theorem unquoted_of_isMarkdown {p : Str} (h : isMarkdown (quotePath p) = true) : Unquoted p := by
  by_contra hquoted
  have hlast := getLast?_quotePath hquoted
  obtain ⟨name, hname, hsuffix⟩ := Path.suffix_of_extension (of_decide_eq_true h)
  have hquote := Path.getLast?_fileName hlast (by decide) (by decide) hname
  obtain ⟨init, rfl⟩ := hsuffix
  simp at hquote

/-- The file is indexed: git does not quote its path, and neither it nor the store leaves it out. -/
structure Indexable (V : View) (r : Repo) (p : Str) : Prop where
  /-- It is a markdown file. -/
  markdown : isMarkdown p = true
  /-- Git prints its path as it is. -/
  unquoted : Unquoted p
  /-- It is there. -/
  present : p ∈ r.worktree
  /-- It is tracked, or not ignored. -/
  seen : p ∈ r.index ∨ V.ignored r p = false

/-- The path is reported as changed. -/
def Changed (F : Filters) (V : View) (r : Repo) (p : Str) : Prop :=
  (r.IsUnmerged p ∨ r.Modified F p) ∨ p ∈ (V.pairing r).pairs.map Renamed.target

/-- The path is reported as gone. -/
def Gone (F : Filters) (V : View) (r : Repo) (p : Str) : Prop :=
  (¬ r.IsUnmerged p ∧ p ∉ (V.pairing r).pairs.map Renamed.target ∧
    p ∉ (V.pairing r).pairs.map Renamed.source ∧
    (r.stagedCode p = .deleted ∨ r.worktreeCode F p = .deleted)) ∨
  p ∈ (V.pairing r).pairs.map Renamed.source

theorem mem_dirtyPaths {p : Str} : p ∈ dirtyPaths (detectChanges F V r) ↔
    isMarkdown p = true ∧ Unquoted p ∧ Changed F V r p := by
  rw [dirtyPaths, List.mem_filter, List.mem_append, mem_modified, List.mem_map]
  constructor
  · rintro ⟨⟨q, rfl, hq⟩ | ⟨c, hc, rfl⟩, hmd⟩
    · have hu := unquoted_of_isMarkdown hmd
      rw [quotePath_of_unquoted hu] at hmd ⊢
      exact ⟨hmd, hu, .inl hq⟩
    · obtain ⟨pair, hpair, rfl⟩ := mem_renamed.1 hc
      have hu := unquoted_of_isMarkdown hmd
      dsimp only at hmd ⊢
      rw [quotePath_of_unquoted hu] at hmd ⊢
      exact ⟨hmd, hu, .inr (List.mem_map_of_mem hpair)⟩
  · rintro ⟨hmd, hu, h | h⟩
    · exact ⟨.inl ⟨p, (quotePath_of_unquoted hu).symm, h⟩, hmd⟩
    · obtain ⟨pair, hpair, rfl⟩ := List.mem_map.1 h
      exact ⟨.inr ⟨_, mem_renamed.2 ⟨pair, hpair, rfl⟩, quotePath_of_unquoted hu⟩, hmd⟩

theorem mem_gone_iff {p : Str} (hu : Unquoted p) :
    p ∈ (detectChanges F V r).deleted ++ (detectChanges F V r).renamed.map Renamed.source ↔
      Gone F V r p := by
  rw [List.mem_append, mem_deleted, List.mem_map]
  constructor
  · rintro (⟨q, hq, h⟩ | ⟨c, hc, hp⟩)
    · obtain rfl := eq_of_quotePath_eq hu hq.symm
      exact .inl h
    · obtain ⟨pair, hpair, rfl⟩ := mem_renamed.1 hc
      obtain rfl := eq_of_quotePath_eq hu hp
      exact .inr (List.mem_map_of_mem hpair)
  · rintro (h | h)
    · exact .inl ⟨p, (quotePath_of_unquoted hu).symm, h⟩
    · obtain ⟨pair, hpair, rfl⟩ := List.mem_map.1 h
      exact .inr ⟨_, mem_renamed.2 ⟨pair, hpair, rfl⟩, quotePath_of_unquoted hu⟩

theorem seen_of_mem_added {p : Str} (h : p ∈ r.untrackedPaths (V.ignored r) ∨
      p ∉ (V.pairing r).pairs.map Renamed.target ∧ r.stagedCode p = .added ∧
        r.worktreeCode F p ≠ .deleted) :
    p ∈ r.index ∨ p ∈ r.untrackedPaths (V.ignored r) := by
  rcases h with h | ⟨-, h, -⟩
  · exact .inr h
  · exact .inl (Repo.stagedCode_eq_added.1 h).2.1

theorem mem_currentPaths {p : Str} :
    p ∈ currentPaths (detectChanges F V r) (listTrackedFiles r) ↔
      isMarkdown p = true ∧ Unquoted p ∧
        (p ∈ r.index ∨ p ∈ r.untrackedPaths (V.ignored r)) ∧ ¬ Gone F V r p := by
  rw [currentPaths, List.mem_filter, List.mem_filter, decide_eq_true_iff, List.mem_append,
    List.mem_append, mem_listTrackedFiles, mem_added, List.mem_map]
  constructor
  · rintro ⟨⟨(⟨q, hq, rfl⟩ | ⟨q, rfl, hq⟩) | ⟨c, hc, rfl⟩, hmd⟩, hgone⟩
    · have hu := unquoted_of_isMarkdown hmd
      rw [quotePath_of_unquoted hu] at hmd hgone ⊢
      exact ⟨hmd, hu, .inl hq, fun h => hgone ((mem_gone_iff hu).2 h)⟩
    · have hu := unquoted_of_isMarkdown hmd
      rw [quotePath_of_unquoted hu] at hmd hgone ⊢
      exact ⟨hmd, hu, seen_of_mem_added hq, fun h => hgone ((mem_gone_iff hu).2 h)⟩
    · obtain ⟨pair, hpair, rfl⟩ := mem_renamed.1 hc
      have hu := unquoted_of_isMarkdown hmd
      dsimp only at hmd hgone ⊢
      rw [quotePath_of_unquoted hu] at hmd hgone ⊢
      have hindex := ((V.pairing r).target_spec (List.mem_map_of_mem hpair)).2.1
      exact ⟨hmd, hu, .inl hindex, fun h => hgone ((mem_gone_iff hu).2 h)⟩
  · rintro ⟨hmd, hu, hseen, hgone⟩
    refine ⟨⟨.inl ?_, hmd⟩, fun h => hgone ((mem_gone_iff hu).1 h)⟩
    rcases hseen with h | h
    · exact .inl ⟨p, h, quotePath_of_unquoted hu⟩
    · exact .inr ⟨p, (quotePath_of_unquoted hu).symm, .inl h⟩

/-- A file that is there is reported as gone only when `HEAD` has its path and the index does not:
a removal was staged. -/
theorem gone_iff_of_present {p : Str} (hp : p ∈ r.worktree) :
    Gone F V r p ↔ p ∈ r.headTree ∧ p ∉ r.index := by
  constructor
  · rintro (⟨hmerged, -, -, hcode | hcode⟩ | hsource)
    · exact (Repo.stagedCode_eq_deleted hmerged).1 hcode
    · exact absurd hp (Repo.worktreeCode_eq_deleted.1 hcode).2
    · exact ((V.pairing r).source_spec hsource).1
  · rintro ⟨hhead, hindex⟩
    by_cases hsource : p ∈ (V.pairing r).pairs.map Renamed.source
    · exact .inr hsource
    · have hmerged : ¬ r.IsUnmerged p := by
        rintro ⟨stages, hstages⟩
        exact hindex (AList.lookup_isSome.1 (by rw [hstages]; rfl))
      refine .inl ⟨hmerged, fun htarget => ?_, hsource,
        .inl ((Repo.stagedCode_eq_deleted hmerged).2 ⟨hhead, hindex⟩)⟩
      exact hindex ((V.pairing r).target_spec htarget).2.1

theorem changed_or_gone_of_missing {p : Str} (hseen : p ∈ r.index) (hp : p ∉ r.worktree) :
    Changed F V r p ∨ Gone F V r p := by
  by_cases hmerged : r.IsUnmerged p
  · exact .inl (.inl (.inl hmerged))
  by_cases htarget : p ∈ (V.pairing r).pairs.map Renamed.target
  · exact .inl (.inr htarget)
  by_cases hsource : p ∈ (V.pairing r).pairs.map Renamed.source
  · exact .inr (.inr hsource)
  · exact .inr (.inl ⟨hmerged, htarget, hsource,
      .inr (Repo.worktreeCode_eq_deleted.2 ⟨⟨hseen, hmerged⟩, hp⟩)⟩)

end Reported

/-! ### What a run reads and drops -/

/-- The item holds what its file and its last signer are now. -/
structure Holds (r : Repo) (item : Item) : Prop where
  /-- The text of the file. -/
  file : ∃ text, r.worktree.lookup item.path = some (.text text) ∧
    item.frontmatter = (Frontmatter.parse text).frontmatter ∧
    item.body = (Frontmatter.parse text).body
  /-- The signer. -/
  signer : item.humanSigned = humanSigned r.head item.path

theorem readItem_eq_ok {r : Repo} {p : Str} {item : Item} (h : readItem r p = .ok item) :
    item.path = p ∧ Holds r item := by
  rw [readItem, Files.readToString] at h
  cases hfile : r.worktree.lookup p with
  | none => rw [hfile] at h; cases h
  | some content =>
    rw [hfile] at h
    dsimp only at h
    cases htext : content.fromUtf8 with
    | none => rw [htext] at h; cases h
    | some text =>
      rw [htext] at h
      obtain rfl := Except.ok.inj h
      obtain rfl := Content.fromUtf8_eq_some.1 htext
      exact ⟨rfl, ⟨text, hfile, rfl, rfl⟩, rfl⟩

theorem mapM_readItem {r : Repo} {ps : List Str} {items : List Item}
    (h : ps.mapM (readItem r) = .ok items) :
    items.map Item.path = ps ∧ ∀ item ∈ items, Holds r item := by
  induction ps generalizing items with
  | nil =>
    obtain rfl : [] = items := Except.ok.inj h
    exact ⟨rfl, by simp⟩
  | cons p ps ih =>
    rw [List.mapM_cons] at h
    obtain ⟨item, hp, h⟩ := Except.bind_eq_ok.1 h
    obtain ⟨rest, hps, h⟩ := Except.bind_eq_ok.1 h
    obtain rfl : item :: rest = items := Except.ok.inj h
    obtain ⟨hpath, hholds⟩ := readItem_eq_ok hp
    obtain ⟨hpaths, hrest⟩ := ih hps
    refine ⟨by rw [List.map_cons, hpath, hpaths], ?_⟩
    rw [List.forall_mem_cons]
    exact ⟨hholds, hrest⟩

theorem embedUpserts_eq_ok {r : Repo} {embedder : Option Embedder} {items items' : List Item}
    (h : embedUpserts embedder items = .ok items') (hitems : ∀ item ∈ items, Holds r item) :
    items'.map Item.path = items.map Item.path ∧ ∀ item ∈ items', Holds r item := by
  have hattach : ∀ embedder : Embedder, ∀ item, (embedder.attach item).path = item.path ∧
      (Holds r item → Holds r (embedder.attach item)) := by
    intro embedder item
    rw [Embedder.attach]
    split
    · exact ⟨rfl, fun hi => ⟨hi.file, hi.signer⟩⟩
    · exact ⟨rfl, id⟩
  cases embedder with
  | none =>
    obtain rfl := Except.ok.inj h
    exact ⟨rfl, hitems⟩
  | some embedder =>
    rw [embedUpserts] at h
    cases hconfig : embedder.config with
    | error e => rw [hconfig] at h; cases h
    | ok u =>
      rw [hconfig] at h
      obtain rfl := Except.ok.inj h
      refine ⟨?_, ?_⟩
      · rw [List.map_map]
        exact List.map_congr_left fun item _ => (hattach embedder item).1
      · rintro item hitem
        obtain ⟨item', hitem', rfl⟩ := List.mem_map.1 hitem
        exact (hattach embedder item').2 (hitems item' hitem')

section Batch

variable {F : Filters} {V : View} {r : Repo} {call : IndexCall} {db : Db} {b : IndexBatch}

/-- The markdown file is listed and not reported as gone. -/
structure Listed (F : Filters) (V : View) (r : Repo) (p : Str) : Prop where
  /-- It is a markdown file. -/
  markdown : isMarkdown p = true
  /-- Git prints its path as it is. -/
  unquoted : Unquoted p
  /-- It is tracked or untracked. -/
  seen : p ∈ r.index ∨ p ∈ r.untrackedPaths (V.ignored r)
  /-- It is not gone. -/
  kept : ¬ Gone F V r p

theorem mem_currentPaths_iff {p : Str} :
    p ∈ currentPaths (detectChanges F V r) (listTrackedFiles r) ↔ Listed F V r p := by
  rw [mem_currentPaths]
  exact ⟨fun h => ⟨h.1, h.2.1, h.2.2.1, h.2.2.2⟩, fun h => ⟨h.1, h.2, h.3, h.4⟩⟩

/-- What a run has for the index: it reads the listed files that are new to the index or reported as
changed, and drops the paths that are not listed. -/
structure IndexBatch.Spec (b : IndexBatch) (F : Filters) (V : View) (r : Repo) (db : Db) :
    Prop where
  /-- What it drops. -/
  deleted : ∀ p, p ∈ b.deletedPaths ↔ p ∈ knownPaths db ∧ ¬ Listed F V r p
  /-- What it reads. -/
  read : ∀ p, p ∈ b.upserts.map Item.path ↔
    Listed F V r p ∧ (p ∉ knownPaths db ∨ Changed F V r p)
  /-- What it read. -/
  holds : ∀ item ∈ b.upserts, Holds r item

theorem gatherBatch_spec (h : gatherBatch F V call r db = .ok b) : b.Spec F V r db := by
  rw [gatherBatch] at h
  have hlisted : ∀ p, p ∈ currentPaths (detectChanges F V r) (listTrackedFiles r) ↔
      Listed F V r p := fun p => mem_currentPaths_iff
  generalize currentPaths (detectChanges F V r) (listTrackedFiles r) = current at h hlisted
  obtain ⟨items, hread, h⟩ := Except.bind_eq_ok.1 h
  obtain ⟨upserts, hembed, h⟩ := Except.bind_eq_ok.1 h
  obtain rfl := Except.ok.inj h
  obtain ⟨hpaths, hitems⟩ := mapM_readItem hread
  obtain ⟨hpaths', hholds⟩ := embedUpserts_eq_ok hembed hitems
  refine ⟨fun p => ?_, fun p => ?_, hholds⟩
  · simp [call.order.mem, hlisted]
  · rw [hpaths', hpaths, List.mem_append, call.order.mem, call.order.mem]
    simp only [List.mem_filter, decide_eq_true_iff, hlisted, mem_dirtyPaths]
    constructor
    · rintro (⟨hp, hnew⟩ | ⟨hp, -, -, -, hchanged⟩)
      · exact ⟨hp, .inl hnew⟩
      · exact ⟨hp, .inr hchanged⟩
    · rintro ⟨hp, hread⟩
      by_cases hknown : p ∈ knownPaths db
      · exact .inr ⟨hp, hknown, hp.markdown, hp.unquoted, hread.resolve_left fun h => h hknown⟩
      · exact .inl ⟨hp, hknown⟩

theorem IndexBatch.Spec.mem_worktree (h : b.Spec F V r db) {p : Str} (hp : Listed F V r p) :
    p ∈ r.worktree := by
  by_contra hmissing
  have hindex : p ∈ r.index := by
    refine hp.seen.resolve_right fun huntracked => ?_
    exact hmissing (Repo.mem_untrackedPaths.1 huntracked).1
  have hchanged := (changed_or_gone_of_missing hindex hmissing).resolve_right hp.kept
  -- it is reported as changed, so it was read
  obtain ⟨item, hitem, rfl⟩ := List.mem_map.1 ((h.read p).2 ⟨hp, .inr hchanged⟩)
  obtain ⟨text, htext, -⟩ := (h.holds item hitem).file
  exact hmissing (AList.lookup_isSome.1 (by rw [htext]; rfl))

/-- The files that a run lists: those to index, but not where a removal was staged. -/
theorem IndexBatch.Spec.listed_iff (h : b.Spec F V r db) {p : Str} :
    Listed F V r p ↔ Indexable V r p ∧ ¬ (p ∈ r.headTree ∧ p ∉ r.index) := by
  constructor
  · intro hp
    have hpresent := h.mem_worktree hp
    refine ⟨⟨hp.markdown, hp.unquoted, hpresent, ?_⟩, fun hremoved =>
      hp.kept ((gone_iff_of_present hpresent).2 hremoved)⟩
    exact hp.seen.imp_right fun huntracked => (Repo.mem_untrackedPaths.1 huntracked).2.2
  · rintro ⟨hp, hremoved⟩
    refine ⟨hp.markdown, hp.unquoted, ?_, fun hgone =>
      hremoved ((gone_iff_of_present hp.present).1 hgone)⟩
    by_cases hindex : p ∈ r.index
    · exact .inl hindex
    · exact .inr (Repo.mem_untrackedPaths.2 ⟨hp.present, hindex, hp.seen.resolve_left hindex⟩)

end Batch

/-! ### Histories -/

/-- What happens to a store. -/
inductive Act
  | write (path : Str) (content : Content)
  | remove (path : Str)
  | rename (source target : Str)
  | stage (path : Str)
  | commit (signature : Signature)
  | merge (incoming : Incoming)
  | finishMerge
  | run (call : IndexCall)

/-- `git commit`: the index on top of what is checked out and of what is being merged. -/
def commitIndex (r : Repo) (signature : Signature) : Repo :=
  if r.hasUnmerged then r
  else
    let commit : Commit := match r.head, r.mergeHead with
      | none, none => .root r.indexTree signature
      | some parent, none | none, some parent => .child r.indexTree signature parent
      | some ours, some theirs => .merge r.indexTree signature ours theirs
    { r with head := some commit, mergeHead := none }

/-- A store with its index, and what the index was told of each path. -/
structure Indexed where
  /-- The repository. -/
  repo : Repo
  /-- The index. -/
  index : Option Db
  /-- The items it was last told, with the days of the runs. -/
  ledger : Ledger

section Histories

variable (F : Filters) (V : View) (driver : Driver)

/-- The repository after an act. -/
def changeRepo (r : Repo) : Act → Repo
  | .write path content => { r with worktree := r.worktree.insert path content }
  | .remove path => { r with worktree := r.worktree.erase path }
  | .rename source target => match r.worktree.lookup source with
    | none => r
    | some content => { r with worktree := (r.worktree.erase source).insert target content }
  | .stage path => (Effect.exec (stagePath F (V.ignored r) path) r).2
  | .commit signature => commitIndex r signature
  | .merge incoming => (Effect.exec (mergeBranch F driver incoming) r).2
  | .finishMerge => (Effect.exec finishMerge r).2
  | .run _ => r

namespace Indexed

/-- The ledger after a run that succeeds. -/
def nextLedger (s : Indexed) (call : IndexCall) : Ledger :=
  match s.index with
  | none => s.ledger
  | some db => match gatherBatch F V call s.repo db with
    | .error _ => s.ledger
    | .ok batch => s.ledger.update call.today batch.upserts batch.deletedPaths

/-- The store after a run, if it succeeds. -/
def run (s : Indexed) (call : IndexCall) : Option Indexed :=
  match runIndexImpl F V call s.repo s.index with
  | .error _ => none
  | .ok (_, db) => some { s with index := some db, ledger := s.nextLedger F V call }

/-- The store after an act; a run that fails leaves it as it is. -/
def step (s : Indexed) (act : Act) : Indexed :=
  match act with
  | .run call => (s.run F V call).getD s
  | act => { s with repo := changeRepo F V driver s.repo act }

/-- The index holds what the ledger says. -/
def InStep (s : Indexed) : Prop := RepresentsDest s.ledger s.index

end Indexed

/-- The property holds of every run in a history that succeeds, of the store before it and the store
after it. -/
def EveryRun (P : Indexed → IndexCall → Indexed → Prop) : Indexed → List Act → Prop
  | _, [] => True
  | s, act :: acts =>
    (∀ call s', act = .run call → s.run F V call = some s' → P s call s') ∧
      EveryRun P (s.step F V driver act) acts

end Histories

section Runs

variable {F : Filters} {V : View} {driver : Driver} {s s' : Indexed} {call : IndexCall}

theorem Indexed.run_eq_some (h : s.run F V call = some s') : ∃ db b db',
    s.index = some db ∧ gatherBatch F V call s.repo db = .ok b ∧
      updateIndex call.today (some db) b.upserts b.deletedPaths = .ok db' ∧
      s' = { s with
        index := some db'
        ledger := s.ledger.update call.today b.upserts b.deletedPaths } := by
  rw [run, nextLedger] at h
  cases hdb : s.index with
  | none => rw [hdb] at h; cases h
  | some db =>
    rw [hdb, runIndexImpl] at h
    cases hb : gatherBatch F V call s.repo db with
    | error e => simp [hb, bind, Except.bind] at h
    | ok b =>
      cases hdb' : updateIndex call.today (some db) b.upserts b.deletedPaths with
      | error e => simp [hb, hdb', bind, Except.bind] at h
      | ok db' =>
        refine ⟨db, b, db', rfl, hb, hdb', ?_⟩
        simpa [hb, hdb', bind, Except.bind, pure, Except.pure, eq_comm] using h

theorem Indexed.InStep.run (hs : s.InStep) (h : s.run F V call = some s') : s'.InStep := by
  obtain ⟨db, b, db', hdb, -, hdb', rfl⟩ := Indexed.run_eq_some h
  rw [InStep, hdb] at hs
  exact Represents.updateIndex hs hdb'

/-- After a run there is an index, and it holds the ledger. -/
theorem Indexed.InStep.exists_represents (hs : s.InStep) (h : s.run F V call = some s') :
    ∃ db, s'.index = some db ∧ Represents s'.ledger db := by
  obtain ⟨db, b, db', -, -, -, heq⟩ := Indexed.run_eq_some h
  have hindex : s'.index = some db' := by rw [heq]
  have hs' := hs.run h
  rw [InStep, hindex] at hs'
  exact ⟨db', hindex, hs'⟩

theorem Indexed.InStep.step (hs : s.InStep) (act : Act) : (s.step F V driver act).InStep := by
  cases act
  case run call =>
    rw [Indexed.step]
    cases hrun : s.run F V call with
    | none => exact hs
    | some s' => exact hs.run hrun
  all_goals exact hs

/-- What a run that succeeds leaves of the store it was made on. -/
structure RunSpec (F : Filters) (V : View) (s : Indexed) (call : IndexCall) (s' : Indexed) :
    Prop where
  /-- The repository is as it was. -/
  repo : s'.repo = s.repo
  /-- The index has the listed paths. -/
  paths : ∀ p, p ∈ s'.ledger.map Entry.path ↔ Listed F V s.repo p
  /-- They are the files to index, but not where a removal was staged. -/
  listed : ∀ p, Listed F V s.repo p ↔
    Indexable V s.repo p ∧ ¬ (p ∈ s.repo.headTree ∧ p ∉ s.repo.index)
  /-- What is not reported as changed is not read again. -/
  kept : ∀ e ∈ s.ledger, Listed F V s.repo e.path → ¬ Changed F V s.repo e.path → e ∈ s'.ledger
  /-- The rest is new to the index or reported as changed, and was read. -/
  read : ∀ e ∈ s'.ledger, (e ∈ s.ledger ∧ ¬ Changed F V s.repo e.path) ∨
    (e.path ∉ s.ledger.map Entry.path ∨ Changed F V s.repo e.path) ∧
      Holds s.repo e.item ∧ e.day = call.today

theorem Indexed.run_spec (hs : s.InStep) (h : s.run F V call = some s') :
    RunSpec F V s call s' := by
  obtain ⟨db, b, db', hdb, hb, -, rfl⟩ := Indexed.run_eq_some h
  rw [InStep, hdb] at hs
  have hspec := gatherBatch_spec hb
  have hknown : knownPaths db = s.ledger.map Entry.path := Represents.knownPaths hs
  have hread : ∀ item ∈ Index.written b.upserts, item.path ∈ b.upserts.map Item.path := fun item hitem =>
    List.mem_map_of_mem (mem_of_mem_written hitem)
  refine ⟨rfl, fun p => ?_, fun p => hspec.listed_iff, ?_, ?_⟩
  · rw [Ledger.mem_paths_update, hspec.read, hspec.deleted, hknown, not_and, not_not]
    constructor
    · rintro (⟨hp, hlisted⟩ | ⟨hlisted, -⟩)
      · exact hlisted hp
      · exact hlisted
    · intro hlisted
      by_cases hp : p ∈ s.ledger.map Entry.path
      · exact .inl ⟨hp, fun _ => hlisted⟩
      · exact .inr ⟨hlisted, .inl hp⟩
  · rintro e he hlisted hchanged
    refine Ledger.mem_update.2 (.inl ⟨he, ?_, ?_⟩)
    · rw [hspec.deleted]
      exact fun hdel => hdel.2 hlisted
    · rw [hspec.read, hknown]
      rintro ⟨-, hnew | hch⟩
      · exact hnew (List.mem_map_of_mem he)
      · exact hchanged hch
  · rintro e he
    rcases Ledger.mem_update.1 he with ⟨he, hdel, hups⟩ | ⟨item, hitem, rfl⟩
    · refine .inl ⟨he, fun hch => hups ((hspec.read _).2 ⟨?_, .inr hch⟩)⟩
      by_contra hlisted
      exact hdel ((hspec.deleted _).2 ⟨hknown ▸ List.mem_map_of_mem he, hlisted⟩)
    · have hpath := (hspec.read _).1 (hread item hitem)
      rw [hknown] at hpath
      exact .inr ⟨hpath.2, hspec.holds item (mem_of_mem_written hitem), rfl⟩

theorem everyRun_congr {P Q : Indexed → IndexCall → Indexed → Prop}
    (h : ∀ s call s', s.InStep → s.run F V call = some s' → (P s call s' ↔ Q s call s'))
    {s : Indexed} (hs : s.InStep) (acts : List Act) :
    EveryRun F V driver P s acts ↔ EveryRun F V driver Q s acts := by
  induction acts generalizing s with
  | nil => exact Iff.rfl
  | cons act acts ih =>
    refine and_congr ?_ (ih (hs.step act))
    exact forall_congr' fun call => forall_congr' fun s' => forall_congr' fun _ =>
      forall_congr' fun hrun => h s call s' hs hrun

end Runs

/-- A store whose index was left by a series of calls. -/
def startWith (r : Repo) (calls : List Call) : Indexed :=
  ⟨r, (runCalls calls).1, (runCalls calls).2⟩

theorem startWith_inStep (r : Repo) (calls : List Call) : (startWith r calls).InStep :=
  representsDest_foldl (s := (none, [])) rfl calls

/-! ### Examples -/

/-- A store without commits and files. -/
def emptyRepo : Repo := { head := none, index := ∅, worktree := ∅ }

/-- A run on 2024-10-04, its sets in the order in which they were filled. -/
def exampleCall : IndexCall where
  today := 20000
  order := ⟨List.dedup, fun _ _ => List.mem_dedup, List.nodup_dedup⟩

/-- The store without files, with a new index. -/
def exampleStart : Indexed := startWith emptyRepo [.build 20000 []]

/-- What happens to a store on a device without an identity, where git pairs no renames. -/
def exampleStep : Indexed → Act → Indexed := Indexed.step exampleFilters exampleView fun _ _ _ => none

end Cli

end Wkp
