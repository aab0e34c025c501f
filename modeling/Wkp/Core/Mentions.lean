import Wkp.Core.Ledger

/-!
# What a wikilink names

* `Graph.Mentioned` : a name is written between double brackets.
* `Graph.mentioned_of_mem` : every extracted name is.
* `Index.resolveWikilink_iff` : the query gives the first path that its pattern matches.
* `Index.mentionsExact_iff` : **when the edges of an item are those of the names it mentions.**
-/

namespace Rust

theorem find_eq_some {pat s before after : Str} (h : find pat s = some (before, after)) :
    s = before ++ (pat ++ after) ∧ (pat ≠ [] → ¬ pat <:+: before) := by
  induction s generalizing before with
  | nil =>
    rw [find] at h
    split_ifs at h with hpat
    obtain ⟨rfl, rfl⟩ : [] = before ∧ [] = after := by simpa using h
    exact ⟨by rw [hpat]; rfl, fun hne => absurd hpat hne⟩
  | cons c s ih =>
    rw [find] at h
    cases hstrip : stripPrefix (c :: s) pat with
    | some rest =>
      rw [hstrip] at h
      obtain ⟨rfl, rfl⟩ : [] = before ∧ rest = after := by simpa using h
      refine ⟨?_, fun hne => by simpa using hne⟩
      rw [List.nil_append]
      exact stripPrefix_eq_some_iff.1 hstrip
    | none =>
      rw [hstrip] at h
      obtain ⟨⟨before', after'⟩, hfind, heq⟩ := Option.map_eq_some_iff.1 h
      obtain ⟨rfl, rfl⟩ : c :: before' = before ∧ after' = after := by simpa using heq
      obtain ⟨hs, hfirst⟩ := ih hfind
      refine ⟨by rw [hs]; rfl, fun hne hin => ?_⟩
      rcases List.infix_cons_iff.1 hin with hstart | hin
      · -- the pattern would have been found here
        obtain ⟨tail, htail⟩ := hstart
        have : stripPrefix (c :: s) pat = some (tail ++ (pat ++ after')) := by
          rw [stripPrefix_eq_some_iff, hs, ← List.cons_append, ← htail, List.append_assoc]
        rw [this] at hstrip
        cases hstrip
      · exact hfirst hne hin

end Rust

namespace Wkp

open Rust

namespace Graph

/-- The name of what stands between double brackets: what comes before an alias or a section. -/
def nameOf (inner : Str) : Str := trim (inner.takeWhile fun c => c ≠ '|' ∧ c ≠ '#')

/-- The body holds `[[inner]]` with the name. -/
def Mentioned (body name : Str) : Prop :=
  ∃ inner : Str, "[[".toList ++ (inner ++ "]]".toList) <:+: body ∧ ¬ "]]".toList <:+: inner ∧
    name = nameOf inner ∧ name ≠ []

theorem mentioned_of_mem_loop {fuel : ℕ} {rest name : Str}
    (h : name ∈ extractWikilinkNamesLoop fuel rest) : Mentioned rest name := by
  induction fuel generalizing rest with
  | zero => cases h
  | succ fuel ih =>
    rw [extractWikilinkNamesLoop] at h
    cases hopen : find "[[".toList rest with
    | none => rw [hopen] at h; cases h
    | some cut =>
      obtain ⟨before, after⟩ := cut
      rw [hopen] at h
      dsimp only at h
      cases hclose : find "]]".toList after with
      | none => rw [hclose] at h; cases h
      | some cut =>
        obtain ⟨inner, rest'⟩ := cut
        rw [hclose] at h
        obtain ⟨hrest, -⟩ := find_eq_some hopen
        obtain ⟨hafter, hinner⟩ := find_eq_some hclose
        rcases List.mem_append.1 h with h | h
        · split_ifs at h with hname
          · cases h
          · obtain rfl := List.mem_singleton.1 h
            refine ⟨inner, ⟨before, rest', ?_⟩, hinner (by decide), rfl, hname⟩
            rw [hrest, hafter]
            simp only [List.append_assoc]
        · obtain ⟨inner', hin, hlater⟩ := ih h
          refine ⟨inner', hin.trans ?_, hlater⟩
          rw [hrest, hafter]
          exact ((List.suffix_append _ _).trans ((List.suffix_append _ _).trans
            ((List.suffix_append _ _).trans (List.suffix_append _ _)))).isInfix

theorem mentioned_of_mem {body name : Str} (h : name ∈ extractWikilinkNames body) :
    Mentioned body name := mentioned_of_mem_loop h

end Graph

namespace Index

open Wkp.Graph (extractWikilinkNames Mentioned)

/-! ### The query -/

/-- The path is `name.md`, or ends in `/name.md`. -/
def NamesPath (name path : Str) : Prop :=
  path = name ++ ".md".toList ∨ '/' :: (name ++ ".md".toList) <:+ path

instance (name path : Str) : Decidable (NamesPath name path) := inferInstanceAs (Decidable (_ ∨ _))

/-- The path is `name.md`, or `LIKE` takes it to end in `/name.md`. -/
def LikePath (name path : Str) : Prop :=
  path = name ++ ".md".toList ∨ like ("%/".toList ++ (name ++ ".md".toList)) path = true

instance (name path : Str) : Decidable (LikePath name path) := inferInstanceAs (Decidable (_ ∨ _))

/-- The first of the paths with a property, in path order. -/
def First (P : Str → Prop) (paths : List Str) (path : Str) : Prop :=
  path ∈ paths ∧ P path ∧ ∀ p ∈ paths, P p → path ≤ p

theorem First.unique {P : Str → Prop} {paths : List Str} {p q : Str} (hp : First P paths p)
    (hq : First P paths q) : p = q :=
  le_antisymm (hp.2.2 q hq.1 hq.2.1) (hq.2.2 p hp.1 hp.2.1)

theorem First.exists {P : Str → Prop} [DecidablePred P] {paths : List Str} {path : Str}
    (hmem : path ∈ paths) (h : P path) : ∃ p, First P paths p := by
  have hfilter : path ∈ paths.filter fun p => decide (P p) :=
    List.mem_filter.2 ⟨hmem, decide_eq_true h⟩
  cases hmin : (paths.filter fun p => decide (P p)).min? with
  | none =>
    rw [List.min?_eq_none_iff.1 hmin] at hfilter
    cases hfilter
  | some p =>
    obtain ⟨hp, hle⟩ := List.min?_eq_some_iff.1 hmin
    obtain ⟨hp, hP⟩ := List.mem_filter.1 hp
    exact ⟨p, hp, of_decide_eq_true hP,
      fun q hq hPq => hle q (List.mem_filter.2 ⟨hq, decide_eq_true hPq⟩)⟩

/-- The query gives the first path that its pattern matches. -/
theorem resolveWikilink_iff {paths : List Str} {name path : Str} :
    resolveWikilink paths name = some path ↔ First (LikePath name) paths path := by
  rw [resolveWikilink, List.min?_eq_some_iff, First]
  simp only [List.mem_filter, Bool.or_eq_true, decide_eq_true_eq, LikePath, and_imp, and_assoc]

theorem like_percent (pattern s : Str) : like ('%' :: pattern) s = s.tails.any (like pattern) := by
  cases s <;> rw [like, if_pos rfl]

theorem like_self (s : Str) : like s s = true := by
  induction s with
  | nil => rfl
  | cons c s ih =>
    rw [like]
    split_ifs with hc
    · rw [List.any_eq_true]
      exact ⟨s, (List.mem_tails _ _).2 (List.suffix_cons c s), ih⟩
    · simp [ih]

/-- The pattern matches every path that is named exactly. -/
theorem NamesPath.likePath {name path : Str} (h : NamesPath name path) : LikePath name path := by
  refine h.imp_right fun hends => ?_
  show like ('%' :: '/' :: (name ++ ".md".toList)) path = true
  rw [like_percent, List.any_eq_true]
  exact ⟨_, (List.mem_tails _ _).2 hends, like_self _⟩

/-! ### The edges of an item -/

/-- The edge of a mention. -/
def mention (item : Item) (target : Str) : Edge := ⟨item.path, target, .mentions⟩

/-- The edges of an item lead to what the pattern of each name finds first. -/
theorem mention_mem_iff {db : Db} {item : Item} {target : Str} :
    mention item target ∈ (insertEdgesForItem db item).edges ↔
      ∃ name ∈ extractWikilinkNames item.body, First (LikePath name) (knownPaths db) target := by
  rw [(insertEdgesForItem_spec db item).2, itemEdges, List.mem_append]
  simp only [mention, List.mem_map, List.mem_filterMap, Edge.mk.injEq, ne_eq, not_true_eq_false,
    and_false, reduceCtorEq, exists_false, false_or, true_and, and_true, exists_eq_right,
    resolveWikilink_iff]
  rfl

/-- The mentions of an item, after its edges were computed: each leads to the first of the paths
that are exactly named by a name between double brackets in its body, and every name with such a
path has its edge. -/
def MentionsExact (db : Db) (item : Item) : Prop :=
  (∀ target, mention item target ∈ (insertEdgesForItem db item).edges →
    ∃ name ∈ extractWikilinkNames item.body, Mentioned item.body name ∧
      First (NamesPath name) (knownPaths db) target) ∧
  (∀ name ∈ extractWikilinkNames item.body, ∀ target,
    First (NamesPath name) (knownPaths db) target →
      mention item target ∈ (insertEdgesForItem db item).edges)

/-- **When the mentions of an item are the paths that it names.**  A name is led astray when the
first path that its pattern matches is not named exactly; that path has to be what another name of
the body names, and the path that the name led astray should have reached has to be what the
pattern of another finds first. -/
theorem mentionsExact_iff (db : Db) (item : Item) : MentionsExact db item ↔
    ∀ name ∈ extractWikilinkNames item.body, ∀ stray,
      First (LikePath name) (knownPaths db) stray → ¬ NamesPath name stray →
        (∃ other ∈ extractWikilinkNames item.body,
          First (NamesPath other) (knownPaths db) stray) ∧
        ∀ target, First (NamesPath name) (knownPaths db) target →
          ∃ other ∈ extractWikilinkNames item.body,
            First (LikePath other) (knownPaths db) target := by
  simp only [MentionsExact, mention_mem_iff]
  constructor
  · rintro ⟨hsound, hcomplete⟩ name hname stray hstray -
    obtain ⟨other, hother, -, hfirst⟩ := hsound stray ⟨name, hname, hstray⟩
    exact ⟨⟨other, hother, hfirst⟩, hcomplete name hname⟩
  · intro h
    constructor
    · rintro target ⟨name, hname, hfirst⟩
      by_cases hexact : NamesPath name target
      · exact ⟨name, hname, Graph.mentioned_of_mem hname, hfirst.1, hexact,
          fun p hp hP => hfirst.2.2 p hp hP.likePath⟩
      · obtain ⟨⟨other, hother, hnames⟩, -⟩ := h name hname target hfirst hexact
        exact ⟨other, hother, Graph.mentioned_of_mem hother, hnames⟩
    · intro name hname target htarget
      obtain ⟨found, hfound⟩ := First.exists htarget.1 htarget.2.1.likePath
      by_cases hexact : NamesPath name found
      · obtain rfl : found = target := le_antisymm
          (hfound.2.2 target htarget.1 htarget.2.1.likePath) (htarget.2.2 found hfound.1 hexact)
        exact ⟨name, hname, hfound⟩
      · exact (h name hname found hfound hexact).2 target htarget

/-- An item that mentions `my_note`. -/
def exampleMentioning : Item where
  path := "c.md".toList
  frontmatter := default
  body := "[[my_note]]".toList
  humanSigned := false

/-- Two notes, one of them with a character in place of the underscore. -/
def exampleNotes : Db :=
  { createSchema with paths := [(1, "a/my-note.md".toList), (2, "b/my_note.md".toList)] }

/-- The underscore of a name stands for any character. -/
theorem mention_of_another_note : ¬ ∀ (db : Db) (item : Item), MentionsExact db item := by
  intro h
  obtain ⟨name, hname, -, -, hnames, -⟩ :=
    (h exampleNotes exampleMentioning).1 "a/my-note.md".toList (by decide)
  rw [show extractWikilinkNames exampleMentioning.body = ["my_note".toList] by decide] at hname
  obtain rfl := List.mem_singleton.1 hname
  exact absurd hnames (by decide)

end Index

end Wkp
