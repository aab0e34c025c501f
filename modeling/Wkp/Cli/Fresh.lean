import Wkp.Cli.IndexCmd

/-!
# Freshness of the index

A run reads what is new to the index and what the status reports as modified against `HEAD`, not
against the last run.  `Cli.freshRuns_iff` says when its index shows the store as it is.

* `Cli.Fresh` : the index has the files of the store, as they are.
* `Cli.Steady` : what a run does not read has not changed since it was read.
-/

namespace Wkp

open Rust Git Index

namespace Cli

/-- The index has a row for each file to index and for no other path, and each row was written from
an item that holds what its file and its last signer are now. -/
def Fresh (V : View) (s : Indexed) : Prop :=
  ∃ db, s.index = some db ∧ (∀ p, p ∈ knownPaths db ↔ Indexable V s.repo p) ∧
    ∀ row ∈ db.items.map Prod.snd, ∃ e ∈ s.ledger, EntryRow e row ∧ Holds s.repo e.item

/-- Where a run leaves the index fresh. -/
structure Steady (F : Filters) (V : View) (s : Indexed) : Prop where
  /-- No file is there whose removal was staged. -/
  removal : ∀ p, Indexable V s.repo p → p ∈ s.repo.headTree → p ∈ s.repo.index
  /-- A file that the status does not report as modified is, with its signer, what it was when the
  index was last told of it. -/
  unread : ∀ e ∈ s.ledger, Indexable V s.repo e.path → ¬ Changed F V s.repo e.path →
    Holds s.repo e.item

variable {F : Filters} {V : View} {driver : Driver} {s s' : Indexed} {call : IndexCall}

/-- A run that succeeds leaves the index fresh exactly when the store was steady. -/
theorem fresh_run_iff (hs : s.InStep) (h : s.run F V call = some s') :
    Fresh V s' ↔ Steady F V s := by
  have hspec := Indexed.run_spec hs h
  obtain ⟨db', hindex, hrep⟩ := hs.exists_represents h
  have hknown : ∀ p, p ∈ knownPaths db' ↔ Listed F V s.repo p := by
    rw [hrep.knownPaths]
    exact hspec.paths
  constructor
  · rintro ⟨db₀, hdb₀, hpaths, hrows⟩
    obtain rfl : db' = db₀ := Option.some.inj (hindex.symm.trans hdb₀)
    rw [hspec.repo] at hpaths hrows
    refine ⟨fun p hp hhead => ?_, fun e he hp hchanged => ?_⟩
    · have hlisted := (hknown p).1 ((hpaths p).2 hp)
      exact not_not.1 fun hnot => ((hspec.listed p).1 hlisted).2 ⟨hhead, hnot⟩
    · -- the row of `e` is still there, and `e` is the only entry of its path
      have he' := hspec.kept e he ((hknown _).1 ((hpaths _).2 hp)) hchanged
      obtain ⟨row, hrow, her⟩ := hrep.row_of_entry he'
      obtain ⟨e₂, he₂, her₂, hholds⟩ := hrows row hrow
      rwa [hrep.eq_of_entryRow he₂ he' her₂ her] at hholds
  · rintro ⟨hremoval, hunread⟩
    have hlisted : ∀ p, Listed F V s.repo p ↔ Indexable V s.repo p := by
      intro p
      rw [hspec.listed]
      exact ⟨And.left, fun hp => ⟨hp, fun hrem => hrem.2 (hremoval p hp hrem.1)⟩⟩
    refine ⟨db', hindex, fun p => by rw [hspec.repo, hknown, hlisted], fun row hrow => ?_⟩
    obtain ⟨e, he, her⟩ := hrep.entry_of_row hrow
    refine ⟨e, he, her, ?_⟩
    rw [hspec.repo]
    rcases hspec.read e he with ⟨hold, hchanged⟩ | ⟨-, hholds, -⟩
    · have hp := (hlisted _).1 ((hspec.paths _).1 (List.mem_map_of_mem he))
      exact hunread e hold hp hchanged
    · exact hholds

/-- **Every run of a history leaves the index fresh exactly when** the store is steady before each of
them. -/
theorem freshRuns_iff (F : Filters) (V : View) (driver : Driver) (r : Repo) (calls : List Call)
    (acts : List Act) :
    EveryRun F V driver (fun _ _ s' => Fresh V s') (startWith r calls) acts ↔
      EveryRun F V driver (fun s _ _ => Steady F V s) (startWith r calls) acts :=
  everyRun_congr (fun _ _ _ hs h => fresh_run_iff hs h) (startWith_inStep r calls) acts

/-- A new file, a run, an edit of the file that still is not added to git, and a run. -/
def exampleEdits : List Act :=
  [.write "a.md".toList (.text "one".toList), .run exampleCall,
    .write "a.md".toList (.text "two".toList), .run exampleCall]

/-- The store before the last run of `exampleEdits`. -/
def exampleEdited : Indexed := (exampleEdits.take 3).foldl exampleStep exampleStart

/-- The index keeps the text of the file before the edit. -/
theorem edit_not_indexed : ¬ ∀ (F : Filters) (V : View) (driver : Driver) (r : Repo)
    (calls : List Call) (acts : List Act),
    EveryRun F V driver (fun _ _ s' => Fresh V s') (startWith r calls) acts := by
  intro h
  obtain ⟨-, -, -, hlast, -⟩ := h exampleFilters exampleView (fun _ _ _ => none) emptyRepo
    [.build 20000 []] exampleEdits
  have hrows : ((exampleEdited.run exampleFilters exampleView exampleCall).bind fun s =>
      s.index.map fun db => db.items.map fun row => row.2.content) = some ["one".toList] := by
    decide +kernel
  cases hrun : exampleEdited.run exampleFilters exampleView exampleCall with
  | none =>
    rw [hrun] at hrows
    cases hrows
  | some s' =>
    obtain ⟨db, hdb, -, hfresh⟩ := hlast exampleCall s' rfl hrun
    have hrepo : s'.repo = exampleEdited.repo := by
      obtain ⟨_, _, _, -, -, -, rfl⟩ := Indexed.run_eq_some hrun
      rfl
    rw [hrun, Option.bind_some, hdb, Option.map_some, Option.some.injEq] at hrows
    obtain ⟨entry, rest, hitems, hone, -⟩ := List.map_eq_cons_iff.1 hrows
    obtain ⟨e, -, hrow, ⟨text, htext, -, hbody⟩, -⟩ :=
      hfresh entry.2 (List.mem_map_of_mem (by rw [hitems]; exact List.mem_cons_self))
    -- the only file of the store holds the new text
    have htwo : ∀ p content, exampleEdited.repo.worktree.lookup p = some content →
        content = .text "two".toList := by
      intro p content hp
      have hmem := AList.mem_lookup_iff.1 hp
      have hentries : exampleEdited.repo.worktree.entries =
          [⟨"a.md".toList, .text "two".toList⟩] := by decide +kernel
      rw [hentries, List.mem_singleton] at hmem
      cases hmem
      rfl
    rw [hrepo] at htext
    obtain rfl : text = "two".toList := Content.text.inj (htwo _ _ htext)
    rw [← (itemRow_spec hrow).2.1, hone] at hbody
    exact absurd hbody (by decide)

end Cli

end Wkp
