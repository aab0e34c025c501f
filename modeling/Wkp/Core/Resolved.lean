import Wkp.Core.Graph

/-!
# Where a reference leads

* `Path.climb` : lexical resolution one component at a time, counting the `..` that lead above where
  it starts.
* `Graph.normalizePath_relative` : what the loop over the components keeps of that count: its
  parity.
* `Graph.resolvesLexically_iff` : **which references are resolved as the path says.**
-/

namespace Rust.Path

/-- One component further: how many `..` led above the start, and the names below. -/
def climb : ℕ × List Str → Component → ℕ × List Str
  | (above, names), .parentDir => if names = [] then (above + 1, []) else (above, names.dropLast)
  | (above, names), .normal name => (above, names ++ [name])
  | (above, names), .rootDir | (above, names), .curDir => (above, names)

/-- The components of a path that a count and names stand for, when only the count's parity is
kept. -/
def parityPath (s : ℕ × List Str) : List Component :=
  (if s.1 % 2 = 1 then [.parentDir] else []) ++ s.2.map .normal

/-- A path of names only. -/
def NamesOnly (p : Str) : Prop := ∀ c ∈ components p, ∃ name, c = .normal name

theorem rootDir_notMem_map (names : List Str) : Component.rootDir ∉ names.map nameComponent := by
  intro hmem
  obtain ⟨name, -, hname⟩ := List.mem_map.1 hmem
  rw [nameComponent] at hname
  split_ifs at hname

theorem rootDir_notMem_components {p : Str} (h : p.head? ≠ some '/') :
    Component.rootDir ∉ components p := by
  rw [components, if_neg h]
  split_ifs
  · rw [List.mem_cons, not_or]
    exact ⟨by decide, rootDir_notMem_map _⟩
  · exact rootDir_notMem_map _

theorem components_absolute {p : Str} (h : p.head? = some '/') :
    ∃ cs, components p = .rootDir :: cs ∧ Component.rootDir ∉ cs :=
  ⟨_, if_pos h, rootDir_notMem_map _⟩

theorem components_join {names : List Str} (h : ∀ name ∈ names, PlainName name) :
    components (Rust.join ['/'] names) = names.map .normal := by
  have hmap : (names.filter (· ≠ ['.'])).map nameComponent = names.map .normal := by
    rw [List.filter_eq_self.2 fun name hn => decide_eq_true (h name hn).2.2.1]
    exact List.map_congr_left fun name hn => if_neg (h name hn).2.2.2
  by_cases hnil : names = []
  · rw [hnil]
    rfl
  have hsplit : (split '/' (Rust.join ['/'] names)).filter (· ≠ []) = names := by
    rw [split, Rust.join, List.splitOn_intercalate '/' (fun name hn => (h name hn).2.1) hnil]
    exact List.filter_eq_self.2 fun name hn => decide_eq_true (h name hn).1
  obtain ⟨name, names, rfl⟩ := List.exists_cons_of_ne_nil hnil
  obtain ⟨hne, hslash, hdot, -⟩ := h name List.mem_cons_self
  have hhead : (Rust.join ['/'] (name :: names)).head? ≠ some '/' := by
    obtain ⟨c, cs, rfl⟩ := List.exists_cons_of_ne_nil hne
    have hc : (Rust.join ['/'] ((c :: cs) :: names)).head? = some c := by
      cases names with
      | nil => rw [Rust.join, List.intercalate_singleton]; rfl
      | cons n ns => rw [join_cons _ _ (List.cons_ne_nil n ns)]; rfl
    rw [hc]
    rintro ⟨⟩
    exact hslash List.mem_cons_self
  rw [components, if_neg hhead, hsplit, if_neg (by simpa using hdot), hmap]

theorem climb_fold_normal (above : ℕ) (acc names : List Str) :
    (names.map Component.normal).foldl climb (above, acc) = (above, acc ++ names) := by
  induction names generalizing acc with
  | nil => simp
  | cons name names ih => rw [List.map_cons, List.foldl_cons, climb, ih, List.append_assoc]; rfl

theorem mem_foldl_climb {s : ℕ × List Str} {cs : List Component} {name : Str}
    (h : name ∈ (cs.foldl climb s).2) : name ∈ s.2 ∨ Component.normal name ∈ cs := by
  induction cs generalizing s with
  | nil => exact .inl h
  | cons c cs ih =>
    rw [List.foldl_cons] at h
    rcases ih h with h | h
    · cases c with
      | normal n =>
        rcases List.mem_append.1 h with h | h
        · exact .inl h
        · rw [List.mem_singleton.1 h]
          exact .inr List.mem_cons_self
      | parentDir =>
        rw [climb] at h
        split_ifs at h
        · cases h
        · exact .inl (List.mem_of_mem_dropLast h)
      | rootDir | curDir => exact .inl h
    · exact .inr (List.mem_cons_of_mem _ h)

end Rust.Path

namespace Wkp

open Rust

namespace Graph

open Rust.Path (climb parityPath)

/-- The names of the directory of a source path. -/
def directory (sourcePath : Str) : List Str :=
  Path.normalize ((Path.parent (Path.components sourcePath)).getD [])

/-- How many `..` of a reference lead above the store, and the names it leads to from there. -/
def resolution (sourcePath rawRef : Str) : ℕ × List Str :=
  (Path.components rawRef).foldl climb (0, directory sourcePath)

/-- The path that a reference leads to, when it stays in the store. -/
def resolvedPath (sourcePath rawRef : Str) : Str := join ['/'] (resolution sourcePath rawRef).2

/-! ### The loop over the components -/

theorem normalizePath_concat_normal (cs : List Component) (name : Str) :
    normalizePath (cs ++ [.normal name]) = normalizePath cs ++ [.normal name] := by
  rw [normalizePath, List.foldl_append]
  rfl

theorem normalizePath_concat_curDir (cs : List Component) :
    normalizePath (cs ++ [.curDir]) = normalizePath cs := by
  rw [normalizePath, List.foldl_append]
  rfl

theorem normalizePath_concat_parentDir (cs : List Component) :
    normalizePath (cs ++ [.parentDir]) =
      if (Path.pop (normalizePath cs)).2 then (Path.pop (normalizePath cs)).1
      else Path.push (normalizePath cs) .parentDir := by
  rw [normalizePath, List.foldl_append]
  rfl

/-- `pop` takes a name back, or the `..` that an earlier one has left. -/
theorem pop_parityPath (s : ℕ × List Str) :
    (if (Path.pop (parityPath s)).2 then (Path.pop (parityPath s)).1
      else Path.push (parityPath s) .parentDir) = parityPath (climb s .parentDir) := by
  obtain ⟨above, names⟩ := s
  have hpop : ∀ cs c, c ≠ Component.rootDir → Path.pop (cs ++ [c]) = (cs, true) := by
    intro cs c hc
    rw [Path.pop, Path.parent, List.getLast?_append, List.getLast?_singleton, Option.some_or,
      List.dropLast_concat]
    cases c <;> first | rfl | exact absurd rfl hc
  rcases List.eq_nil_or_concat names with rfl | ⟨names, name, rfl⟩
  · rw [climb, if_pos rfl]
    by_cases hodd : above % 2 = 1
    · have hnext : ¬ (above + 1) % 2 = 1 := by omega
      simp only [parityPath, hodd, hnext, if_true, if_false, List.map_nil, List.append_nil]
      rfl
    · have hnext : (above + 1) % 2 = 1 := by omega
      simp only [parityPath, hodd, hnext, if_true, if_false, List.map_nil, List.append_nil]
      rfl
  · rw [List.concat_eq_append]
    have hcons : parityPath (above, names ++ [name]) =
        parityPath (above, names) ++ [.normal name] := by
      simp only [parityPath, List.map_append, List.map_singleton, List.append_assoc]
    rw [hcons, hpop _ (.normal name) (by simp), if_pos rfl, climb, if_neg (by simp),
      List.dropLast_concat]

theorem normalizePath_eq {cs : List Component} (h : Component.rootDir ∉ cs) :
    normalizePath cs = parityPath (cs.foldl climb (0, [])) := by
  induction cs using List.reverseRecOn with
  | nil => rfl
  | append_singleton cs c ih =>
    rw [List.mem_append, not_or] at h
    rw [List.foldl_append, List.foldl_cons, List.foldl_nil]
    cases c with
    | rootDir => exact absurd (List.mem_singleton_self _) h.2
    | curDir => rw [normalizePath_concat_curDir, ih h.1]; rfl
    | parentDir => rw [normalizePath_concat_parentDir, ih h.1, pop_parityPath]
    | normal name =>
      rw [normalizePath_concat_normal, ih h.1]
      simp only [climb, parityPath, List.map_append, List.map_singleton, List.append_assoc]
      rfl

theorem foldl_climb_filter (cs : List Component) (s : ℕ × List Str) :
    (cs.filter (· ≠ .curDir)).foldl climb s = cs.foldl climb s := by
  induction cs generalizing s with
  | nil => rfl
  | cons c cs ih =>
    cases c with
    | curDir => exact ih s
    | parentDir | normal | rootDir => exact ih _

theorem parent_components {sourcePath : Str} (h : Path.NamesOnly sourcePath) :
    (Path.parent (Path.components sourcePath)).getD [] =
      (directory sourcePath).map .normal := by
  obtain ⟨names, hnames⟩ : ∃ names : List Str,
      (Path.parent (Path.components sourcePath)).getD [] = names.map .normal := by
    have hsub : ∀ c ∈ (Path.parent (Path.components sourcePath)).getD [],
        ∃ name, c = Component.normal name := by
      intro c hc
      rw [Path.parent] at hc
      split at hc
      · cases hc
      · cases hc
      · exact h c (List.mem_of_mem_dropLast hc)
    generalize (Path.parent (Path.components sourcePath)).getD [] = cs at hsub
    induction cs with
    | nil => exact ⟨[], rfl⟩
    | cons c cs ih =>
      obtain ⟨name, rfl⟩ := hsub c List.mem_cons_self
      obtain ⟨names, rfl⟩ := ih fun c hc => hsub c (List.mem_cons_of_mem _ hc)
      exact ⟨name :: names, rfl⟩
  rw [directory, hnames, Path.normalize, Path.foldl_follow_normal, List.nil_append]

/-- **What is left of a relative reference**: the names it leads to, behind one `..` when an odd
number of them leads above the store. -/
theorem normalizePath_relative {sourcePath rawRef : Str} (h : Path.NamesOnly sourcePath)
    (hraw : rawRef.head? ≠ some '/') :
    normalizePath (Path.join ((Path.parent (Path.components sourcePath)).getD []) rawRef) =
      parityPath (resolution sourcePath rawRef) := by
  have hroot := Path.rootDir_notMem_components hraw
  rw [parent_components h, Path.join, resolution]
  split_ifs with hdir
  · have hnil : directory sourcePath = [] := by
      rcases hdir with hdir | hdir
      · exact absurd hdir hraw
      · exact List.map_eq_nil_iff.1 hdir
    rw [normalizePath_eq hroot, hnil]
  · rw [normalizePath_eq, List.foldl_append, Path.climb_fold_normal, List.nil_append,
      foldl_climb_filter]
    rw [List.mem_append, not_or]
    refine ⟨fun hm => ?_, fun hm => hroot (List.mem_of_mem_filter hm)⟩
    obtain ⟨name, -, hname⟩ := List.mem_map.1 hm
    cases hname

theorem plainName_of_mem_resolution {sourcePath rawRef : Str} (h : Path.NamesOnly sourcePath) :
    ∀ name ∈ (resolution sourcePath rawRef).2, Path.PlainName name := by
  intro name hname
  rcases Path.mem_foldl_climb hname with hname | hname
  · have hparent : Component.normal name ∈ (Path.parent (Path.components sourcePath)).getD [] := by
      rw [parent_components h]
      exact List.mem_map_of_mem hname
    refine @Path.plainName_of_mem_components sourcePath _ ?_
    rw [Path.parent] at hparent
    split at hparent
    · cases hparent
    · cases hparent
    · exact List.mem_of_mem_dropLast hparent
  · exact Path.plainName_of_mem_components hname

/-! ### The text of the result -/

/-- Backslashes are written as slashes. -/
def slashed (s : Str) : Str := s.map fun c => if c = '\\' then '/' else c

theorem slashed_eq_self_iff {s : Str} : slashed s = s ↔ '\\' ∉ s := by
  induction s with
  | nil => simp [slashed]
  | cons c s ih =>
    rw [slashed, List.map_cons, List.cons.injEq, List.mem_cons, not_or]
    refine and_congr ?_ ih
    split_ifs with hc
    · exact iff_of_false (fun h => absurd (h.trans hc) (by decide)) fun h => h hc.symm
    · exact iff_of_true rfl (Ne.symm hc)

/-- The text points above the store. -/
def Outside (text : Str) : Prop := text = "..".toList ∨ (stripPrefix text "../".toList).isSome

instance (text : Str) : Decidable (Outside text) := inferInstanceAs (Decidable (_ ∨ _))

theorem outside_iff {text : Str} : Outside text ↔ text = "..".toList ∨ "../".toList <+: text := by
  refine or_congr Iff.rfl ?_
  rw [Option.isSome_iff_exists]
  constructor
  · rintro ⟨rest, h⟩
    exact ⟨rest, (stripPrefix_eq_some_iff.1 h).symm⟩
  · rintro ⟨rest, h⟩
    exact ⟨rest, stripPrefix_eq_some_iff.2 h.symm⟩

theorem normalizeRef_eq (sourcePath rawRef : Str) : normalizeRef sourcePath rawRef =
    let text := slashed (Path.display (normalizePath
      (Path.join ((Path.parent (Path.components sourcePath)).getD []) rawRef)))
    if Outside text then none else some text := rfl

theorem display_parityPath (s : ℕ × List Str) : Path.display (parityPath s) =
    join ['/'] ((if s.1 % 2 = 1 then ["..".toList] else []) ++ s.2) := by
  obtain ⟨above, names⟩ := s
  have hnames : (names.map Component.normal).map Path.componentStr = names := by
    rw [List.map_map]
    exact List.map_id names
  have hdisplay : Path.display (parityPath (above, names)) =
      join ['/'] ((parityPath (above, names)).map Path.componentStr) := by
    rw [parityPath]
    split_ifs
    · rfl
    · cases names <;> rfl
  rw [hdisplay, parityPath, List.map_append, hnames]
  split_ifs <;> rfl

/-- An odd number of `..` above the store is seen. -/
theorem normalizeRef_odd {sourcePath rawRef : Str} (h : Path.NamesOnly sourcePath)
    (hraw : rawRef.head? ≠ some '/') (hodd : (resolution sourcePath rawRef).1 % 2 = 1) :
    normalizeRef sourcePath rawRef = none := by
  rw [normalizeRef_eq, normalizePath_relative h hraw, display_parityPath, if_pos hodd]
  refine if_pos (outside_iff.2 ?_)
  by_cases hnil : (resolution sourcePath rawRef).2 = []
  · rw [hnil]
    exact .inl (by decide)
  · rw [List.singleton_append, join_cons _ _ hnil]
    exact .inr ⟨_, rfl⟩

theorem normalizeRef_even {sourcePath rawRef : Str} (h : Path.NamesOnly sourcePath)
    (hraw : rawRef.head? ≠ some '/') (heven : ¬ (resolution sourcePath rawRef).1 % 2 = 1) :
    normalizeRef sourcePath rawRef = if Outside (slashed (resolvedPath sourcePath rawRef)) then none
      else some (slashed (resolvedPath sourcePath rawRef)) := by
  rw [normalizeRef_eq, normalizePath_relative h hraw, display_parityPath, if_neg heven]
  rfl

/-- A path of plain names looks as if it led above the store only through a backslash. -/
theorem outside_slashed_iff {names : List Str} (h : ∀ name ∈ names, Path.PlainName name) :
    Outside (slashed (join ['/'] names)) ↔ "..\\".toList <+: join ['/'] names := by
  have hcomponents := Path.components_join h
  have hnormal : Component.parentDir ∉ Path.components (join ['/'] names) := by
    rw [hcomponents]
    intro hm
    obtain ⟨name, -, hname⟩ := List.mem_map.1 hm
    cases hname
  have hdot : ∀ c : Char, (if c = '\\' then '/' else c) = '.' → c = '.' := by
    intro c hc
    split_ifs at hc with hb
    · exact absurd hc (by decide)
    · exact hc
  generalize join ['/'] names = path at hnormal
  rw [outside_iff]
  constructor
  · rintro (hdots | hstarts)
    · -- only `..` itself is written so
      obtain ⟨a, b, rfl⟩ :=
        List.length_eq_two.1 (by simpa [slashed] using congrArg List.length hdots)
      simp only [slashed, List.map_cons, List.map_nil] at hdots
      obtain ⟨ha, hb⟩ := List.cons.inj hdots
      rw [hdot a ha, hdot b (List.cons.inj hb).1] at hnormal
      exact absurd (show Component.parentDir ∈ Path.components "..".toList by decide) hnormal
    · obtain ⟨rest, hrest⟩ := hstarts
      obtain ⟨three, tail, rfl, hthree, -⟩ := List.map_eq_append_iff.1 hrest.symm
      obtain ⟨a, b, c, rfl⟩ :=
        List.length_eq_three.1 (by simpa using congrArg List.length hthree)
      simp only [List.map_cons, List.map_nil] at hthree
      obtain ⟨ha, hbc⟩ := List.cons.inj hthree
      obtain ⟨hb, hc⟩ := List.cons.inj hbc
      rw [hdot a ha, hdot b hb] at hnormal ⊢
      by_cases hback : c = '\\'
      · rw [hback]
        exact List.prefix_append _ _
      · rw [if_neg hback] at hc
        obtain rfl : c = '/' := (List.cons.inj hc).1
        refine absurd ?_ hnormal
        have hsplit : split '/' (['.', '.', '/'] ++ tail) = "..".toList :: split '/' tail :=
          List.splitOn_append_cons_self "..".toList tail
        rw [Path.components, hsplit]
        simp [Path.nameComponent]
  · rintro ⟨rest, rfl⟩
    exact .inr ⟨slashed rest, by simp [slashed]⟩

theorem normalizePath_rootDir {cs : List Component} (h : Component.rootDir ∉ cs) :
    ∃ rest, normalizePath (.rootDir :: cs) = .rootDir :: rest := by
  have hpop : ∀ rest : List Component, ∃ rest', (if (Path.pop (.rootDir :: rest)).2 then
      (Path.pop (.rootDir :: rest)).1 else Path.push (.rootDir :: rest) .parentDir) =
        .rootDir :: rest' := by
    intro rest
    rw [Path.pop, Path.parent]
    rcases List.eq_nil_or_concat rest with rfl | ⟨rest, last, rfl⟩
    · exact ⟨[.parentDir], rfl⟩
    · rw [List.concat_eq_append, ← List.cons_append, List.getLast?_append, List.getLast?_singleton,
        Option.some_or, List.dropLast_concat]
      cases last with
      | rootDir => exact ⟨rest ++ [.rootDir] ++ [.parentDir], rfl⟩
      | curDir | parentDir | normal => exact ⟨rest, rfl⟩
  induction cs using List.reverseRecOn with
  | nil => exact ⟨[], rfl⟩
  | append_singleton cs c ih =>
    rw [List.mem_append, not_or] at h
    obtain ⟨rest, hrest⟩ := ih h.1
    rw [← List.cons_append]
    cases c with
    | rootDir => exact absurd (List.mem_singleton_self _) h.2
    | curDir => exact ⟨rest, by rw [normalizePath_concat_curDir, hrest]⟩
    | normal name => exact ⟨rest ++ [.normal name], by rw [normalizePath_concat_normal, hrest]; rfl⟩
    | parentDir =>
      rw [normalizePath_concat_parentDir, hrest]
      exact hpop rest

theorem normalizeRef_absolute {rawRef : Str} (h : rawRef.head? = some '/') (sourcePath : Str) :
    ∃ target, normalizeRef sourcePath rawRef = some target := by
  obtain ⟨cs, hcs, hroot⟩ := Path.components_absolute h
  obtain ⟨rest, hrest⟩ := normalizePath_rootDir hroot
  have hjoin : ∀ dir, Path.join dir rawRef = Path.components rawRef := fun dir => if_pos (.inl h)
  rw [normalizeRef_eq, hjoin, hcs, hrest]
  refine ⟨_, if_neg fun hout => ?_⟩
  have hhead : (slashed (Path.display (.rootDir :: rest))).head? = some '/' := rfl
  rcases outside_iff.1 hout with hdots | ⟨tail, hstarts⟩
  · rw [hdots] at hhead
    exact absurd hhead (by decide)
  · rw [← hstarts] at hhead
    exact absurd (show some '.' = some '/' from hhead) (by decide)

/-! ### The references that are resolved as the path says -/

/-- A reference has a target exactly when it is not absolute and, followed component by component
from the directory of its source, ends in the store; the target is the path that it leads to,
without `.` and `..`. -/
def ResolvesLexically (sourcePath rawRef : Str) : Prop :=
  ∀ target, normalizeRef sourcePath rawRef = some target ↔
    rawRef.head? ≠ some '/' ∧ (resolution sourcePath rawRef).1 = 0 ∧
      target = resolvedPath sourcePath rawRef ∧
      ∀ name ∈ (resolution sourcePath rawRef).2, Path.PlainName name

/-- **Which references are resolved as the path says.**  A relative one that ends in the store,
unless the path holds a backslash; and one that ends above it, when the number of `..` that lead
above is odd, or when the rest of the path starts with `..\`. -/
theorem resolvesLexically_iff {sourcePath : Str} (h : Path.NamesOnly sourcePath) (rawRef : Str) :
    ResolvesLexically sourcePath rawRef ↔ rawRef.head? ≠ some '/' ∧
      if (resolution sourcePath rawRef).1 = 0 then '\\' ∉ resolvedPath sourcePath rawRef
      else (resolution sourcePath rawRef).1 % 2 = 1 ∨
        "..\\".toList <+: resolvedPath sourcePath rawRef := by
  have hplain : ∀ name ∈ (resolution sourcePath rawRef).2, Path.PlainName name :=
    plainName_of_mem_resolution h
  have hlook : Outside (slashed (resolvedPath sourcePath rawRef)) ↔
      "..\\".toList <+: resolvedPath sourcePath rawRef := outside_slashed_iff hplain
  by_cases habs : rawRef.head? = some '/'
  · obtain ⟨target, htarget⟩ := normalizeRef_absolute habs sourcePath
    exact iff_of_false (fun hres => ((hres target).1 htarget).1 habs) fun hcond => hcond.1 habs
  rw [ResolvesLexically]
  simp only [ne_eq, habs, not_false_eq_true, true_and]
  by_cases hodd : (resolution sourcePath rawRef).1 % 2 = 1
  · have hzero : ¬ (resolution sourcePath rawRef).1 = 0 := by omega
    simp [normalizeRef_odd h habs hodd, hzero, hodd]
  rw [normalizeRef_even h habs hodd]
  by_cases hzero : (resolution sourcePath rawRef).1 = 0
  · simp only [hzero, if_true, true_and]
    by_cases hout : Outside (slashed (resolvedPath sourcePath rawRef))
    · -- the backslash of a name `..\` makes the path look as if it led above the store
      refine iff_of_false (fun hres => ?_) fun hback => ?_
      · have := (hres (resolvedPath sourcePath rawRef)).2 ⟨rfl, hplain⟩
        rw [if_pos hout] at this
        cases this
      · exact hback ((hlook.1 hout).subset (by decide))
    · rw [if_neg hout, ← slashed_eq_self_iff]
      constructor
      · intro hres
        exact ((hres _).1 rfl).1
      · intro hself target
        rw [hself, Option.some.injEq, eq_comm]
        exact ⟨fun ht => ⟨ht, hplain⟩, And.left⟩
  · simp only [hzero, hodd, if_false, false_and, iff_false, false_or]
    refine Iff.trans ?_ hlook
    constructor
    · intro hres
      by_contra hout
      exact hres _ (if_neg hout)
    · intro hout target
      rw [if_pos hout]
      rintro ⟨⟩

/-- A source path at the store root. -/
def exampleSource : Str := "a.md".toList

theorem namesOnly_exampleSource : Path.NamesOnly exampleSource := by
  intro c hc
  rw [show Path.components exampleSource = [.normal exampleSource] by decide] at hc
  exact ⟨exampleSource, List.mem_singleton.1 hc⟩

theorem resolvesLexically_iff_exampleSource :
    ResolvesLexically exampleSource "../b.md".toList ↔ "../b.md".toList.head? ≠ some '/' ∧
      if (resolution exampleSource "../b.md".toList).1 = 0 then
        '\\' ∉ resolvedPath exampleSource "../b.md".toList
      else (resolution exampleSource "../b.md".toList).1 % 2 = 1 ∨
        "..\\".toList <+: resolvedPath exampleSource "../b.md".toList :=
  resolvesLexically_iff namesOnly_exampleSource "../b.md".toList

/-- Two `..` above the store root cancel out. -/
theorem normalizeRef_cancels : ¬ ∀ sourcePath rawRef : Str, Path.NamesOnly sourcePath →
    ResolvesLexically sourcePath rawRef := by
  intro h
  have hres := (h exampleSource "../../b.md".toList namesOnly_exampleSource "b.md".toList).1
    (by decide)
  exact absurd hres.2.1 (by decide)

end Graph

end Wkp
