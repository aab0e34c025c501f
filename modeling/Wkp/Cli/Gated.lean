import Wkp.Cli.IndexCmd

/-!
# The tier gate over histories

A run takes the signer of a file from the history and its text from the worktree.
`Cli.gatedRuns_iff` says when nothing is left in tier 0 or 1 but what a human signed.

* `Cli.Gated` : every row in tier 0 or 1 holds what the last commit of its path holds, and a human
  signed that commit.
* `Cli.Guarded` : no file that a run injects was edited behind its last commit.
-/

namespace Wkp

open Rust Git Index

namespace Cli

/-- The frontmatter and the body are those that the last commit of the path has, as git checks them
out. -/
def Committed (F : Filters) (r : Repo) (path : Str) (fm : Frontmatter) (body : Str) : Prop :=
  ∃ commit blob text, lastCommit r.head path = some commit ∧
    commit.tree.lookup path = some blob ∧ F.smudge path blob = .text text ∧
    fm = (Frontmatter.parse text).frontmatter ∧ body = (Frontmatter.parse text).body

/-- The item holds what the last commit of its path has, and a human signed that commit. -/
structure Reviewed (F : Filters) (r : Repo) (item : Item) : Prop where
  /-- The signer. -/
  signed : humanSigned r.head item.path = true
  /-- The content. -/
  committed : Committed F r item.path item.frontmatter item.body

/-- Every row in tier 0 or 1 was written from a reviewed item. -/
def Gated (F : Filters) (s : Indexed) : Prop :=
  ∃ db, s.index = some db ∧ ∀ row ∈ db.items.map Prod.snd, row.tier ≤ 1 →
    ∃ e ∈ s.ledger, EntryRow e row ∧ Reviewed F s.repo e.item

/-- The item is in tier 0 or 1 when it is written on the day. -/
def Injects (today : ℕ) (path : Str) (fm : Frontmatter) (humanSigned : Bool) : Prop :=
  ∃ tier ≤ 1, Tier.computeTier today path fm humanSigned = some tier

/-- Where a run leaves nothing unreviewed in tier 0 or 1. -/
structure Guarded (F : Filters) (V : View) (s : Indexed) (call : IndexCall) : Prop where
  /-- A file that the run reads, whose last commit a human signed and whose text is injected, has
  the text of that commit. -/
  read : ∀ p text, Listed F V s.repo p →
    p ∉ s.ledger.map Entry.path ∨ Changed F V s.repo p →
    s.repo.worktree.lookup p = some (.text text) → humanSigned s.repo.head p = true →
    Injects call.today p (Frontmatter.parse text).frontmatter true →
    Committed F s.repo p (Frontmatter.parse text).frontmatter (Frontmatter.parse text).body
  /-- An item in tier 0 or 1 that the run does not read again is still what the last commit of its
  path has, and a human signed that commit. -/
  unread : ∀ e ∈ s.ledger, Listed F V s.repo e.path → ¬ Changed F V s.repo e.path →
    Injects e.day e.item.path e.item.frontmatter e.item.humanSigned → Reviewed F s.repo e.item

variable {F : Filters} {V : View} {driver : Driver} {s s' : Indexed} {call : IndexCall}

theorem Injects.humanSigned_eq_true {today : ℕ} {path : Str} {fm : Frontmatter}
    {humanSigned : Bool} (h : Injects today path fm humanSigned) : humanSigned = true := by
  obtain ⟨tier, hle, htier⟩ := h
  exact ((Tier.computeTier_le_one_iff htier).1 hle).1.2.1

/-- The row of an entry is in tier 0 or 1 exactly when its item is injected on its day. -/
theorem tier_le_one_iff {e : Entry} {row : Row} (h : EntryRow e row) :
    row.tier ≤ 1 ↔ Injects e.day e.item.path e.item.frontmatter e.item.humanSigned := by
  have htier := (itemRow_spec h).2.2
  constructor
  · intro hle
    exact ⟨row.tier, hle, htier⟩
  · rintro ⟨tier, hle, htier'⟩
    obtain rfl : row.tier = tier := Option.some.inj (htier.symm.trans htier')
    exact hle

/-- A run that succeeds leaves the index gated exactly when the store was guarded. -/
theorem gated_run_iff (hs : s.InStep) (h : s.run F V call = some s') :
    Gated F s' ↔ Guarded F V s call := by
  have hspec := Indexed.run_spec hs h
  obtain ⟨db', hindex, hrep⟩ := hs.exists_represents h
  constructor
  · rintro ⟨db₀, hdb₀, hrows⟩
    obtain rfl : db' = db₀ := Option.some.inj (hindex.symm.trans hdb₀)
    rw [hspec.repo] at hrows
    -- a row is that of one entry, so it is the entry itself that was reviewed
    have hentry : ∀ e ∈ s'.ledger,
        Injects e.day e.item.path e.item.frontmatter e.item.humanSigned →
          Reviewed F s.repo e.item := by
      intro e he hinjects
      obtain ⟨row, hrow, her⟩ := hrep.row_of_entry he
      obtain ⟨e₂, he₂, her₂, hreviewed⟩ := hrows row hrow ((tier_le_one_iff her).2 hinjects)
      rwa [hrep.eq_of_entryRow he₂ he her₂ her] at hreviewed
    refine ⟨fun p text hlisted hread htext hsigned hinjects => ?_,
      fun e he hlisted hchanged => hentry e (hspec.kept e he hlisted hchanged)⟩
    obtain ⟨e, he, rfl⟩ := List.mem_map.1 ((hspec.paths p).2 hlisted)
    rcases hspec.read e he with ⟨hold, hunchanged⟩ | ⟨-, ⟨⟨text', htext', hfm, hbody⟩, hsigner⟩, hday⟩
    · exact absurd hread (not_or.2 ⟨not_not.2 (List.mem_map_of_mem hold), hunchanged⟩)
    · obtain rfl : text' = text := by
        rw [show s.repo.worktree.lookup e.item.path = _ from htext] at htext'
        exact (Content.text.inj (Option.some.inj htext')).symm
      have hreviewed := hentry e he (by
        rw [hday, hfm, hsigner, show humanSigned s.repo.head e.item.path = true from hsigned]
        exact hinjects)
      rw [← hfm, ← hbody]
      exact hreviewed.committed
  · rintro ⟨hread, hunread⟩
    refine ⟨db', hindex, fun row hrow htier => ?_⟩
    obtain ⟨e, he, her⟩ := hrep.entry_of_row hrow
    have hinjects := (tier_le_one_iff her).1 htier
    have hlisted := (hspec.paths _).1 (List.mem_map_of_mem he)
    refine ⟨e, he, her, ?_⟩
    rw [hspec.repo]
    rcases hspec.read e he with
      ⟨hold, hunchanged⟩ | ⟨hnew, ⟨⟨text, htext, hfm, hbody⟩, hsigner⟩, hday⟩
    · exact hunread e hold hlisted hunchanged hinjects
    · have hsigned : humanSigned s.repo.head e.item.path = true :=
        hsigner.symm.trans hinjects.humanSigned_eq_true
      refine ⟨hsigned, ?_⟩
      rw [hfm, hbody]
      refine hread e.path text hlisted hnew htext hsigned ?_
      rw [hday, hfm, hinjects.humanSigned_eq_true] at hinjects
      exact hinjects

/-- **Every run of a history leaves nothing unreviewed in tier 0 or 1 exactly when** the store is
guarded before each of them. -/
theorem gatedRuns_iff (F : Filters) (V : View) (driver : Driver) (r : Repo) (calls : List Call)
    (acts : List Act) :
    EveryRun F V driver (fun _ _ s' => Gated F s') (startWith r calls) acts ↔
      EveryRun F V driver (fun s call _ => Guarded F V s call) (startWith r calls) acts :=
  everyRun_congr (fun _ _ _ hs h => gated_run_iff hs h) (startWith_inStep r calls) acts

/-- A project state with the given body. -/
def exampleState (body : String) : Content :=
  .text ("---\ntype: project-state\n---\n".toList ++ body.toList)

/-- A human signs a file, an agent edits it without a commit, and a run. -/
def exampleSwap : List Act :=
  [.write "a.md".toList (exampleState "reviewed"), .stage "a.md".toList,
    .commit ⟨"G".toList, "human:a".toList⟩, .write "a.md".toList (exampleState "swapped"),
    .run exampleCall]

/-- The store before the run of `exampleSwap`. -/
def exampleSwapped : Indexed := (exampleSwap.take 4).foldl exampleStep exampleStart

/-- The text of the edit is in tier 0, by the signature on the text before it. -/
theorem swap_injected : ¬ ∀ (F : Filters) (V : View) (driver : Driver) (r : Repo)
    (calls : List Call) (acts : List Act),
    EveryRun F V driver (fun _ _ s' => Gated F s') (startWith r calls) acts := by
  intro h
  obtain ⟨-, -, -, -, hlast, -⟩ := h exampleFilters exampleView (fun _ _ _ => none) emptyRepo
    [.build 20000 []] exampleSwap
  have hrows : ((exampleSwapped.run exampleFilters exampleView exampleCall).bind fun s =>
      s.index.map fun db => db.items.map fun entry =>
        (entry.2.path, entry.2.tier, entry.2.content)) =
      some [("a.md".toList, 0, "swapped".toList)] := by
    decide +kernel
  have hcommitted : ((lastCommit exampleSwapped.repo.head "a.md".toList).bind fun commit =>
      (commit.tree.lookup "a.md".toList).map (exampleFilters.smudge "a.md".toList)) =
      some (exampleState "reviewed") := by
    decide +kernel
  cases hrun : exampleSwapped.run exampleFilters exampleView exampleCall with
  | none =>
    rw [hrun] at hrows
    cases hrows
  | some s' =>
    obtain ⟨db, hdb, hgated⟩ := hlast exampleCall s' rfl hrun
    have hrepo : s'.repo = exampleSwapped.repo := by
      obtain ⟨_, _, _, -, -, -, rfl⟩ := Indexed.run_eq_some hrun
      rfl
    rw [hrun, Option.bind_some, hdb, Option.map_some, Option.some.injEq] at hrows
    obtain ⟨entry, rest, hitems, hentry, -⟩ := List.map_eq_cons_iff.1 hrows
    obtain ⟨hpath, htier, hcontent⟩ : entry.2.path = "a.md".toList ∧ entry.2.tier = 0 ∧
        entry.2.content = "swapped".toList := by simpa using hentry
    -- the row would have to be that of the text that was committed
    obtain ⟨e, -, hrow, -, commit, blob, text, hcommit, hblob, htext, -, hbody⟩ :=
      hgated entry.2 (List.mem_map_of_mem (by rw [hitems]; exact List.mem_cons_self))
        (by rw [htier]; exact Nat.zero_le 1)
    have hitem : e.item.path = "a.md".toList := by rw [← path_of_itemRow hrow, hpath]
    rw [hrepo, hitem] at hcommit
    rw [hitem] at hblob htext
    rw [hcommit, Option.bind_some, hblob, Option.map_some, htext] at hcommitted
    obtain rfl := Content.text.inj (Option.some.inj hcommitted)
    rw [← (itemRow_spec hrow).2.1, hcontent] at hbody
    exact absurd hbody (by decide +kernel)

end Cli

end Wkp
