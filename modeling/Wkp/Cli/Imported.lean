import Wkp.Cli.Import
import Wkp.Core.RoundTrip

/-!
# What an import brings

* `Cli.sources` : the files that there are to import.
* `Cli.importStep` : what importing one of them does; `Cli.Imports` : a program that imports the
  given files one after another, and changes nothing when they are there.
* `Cli.imports_importAll` : `run_import` is such a program.
* `Cli.LosesNothing` : every body arrives, every file counts, and a second run changes nothing.
* `Cli.losesNothing_iff` : it is so exactly when no two memory files have the same stem.
-/

namespace Wkp

open Rust

namespace Cli

/-! ### The sources -/

/-- The entries of a directory that can be read. -/
def entries {α : Type} : Option (Directory α) → List α
  | some (.ok entries) => entries.filterMap Except.toOption
  | _ => []

/-- What there is to import when the contents can be read. -/
def sourcesOf (contents : Except Str Str) (source : Str → Source) : List Source :=
  contents.toOption.toList.map source

/-- The source in a memory file, if its name ends in `.md`. -/
def MemoryFile.sources (file : MemoryFile) : List Source :=
  if file.isMarkdown then sourcesOf file.contents file.source else []

/-- The sources in the memory of a project. -/
def Project.sources (project : Project) : List Source :=
  (entries project.memory).flatMap MemoryFile.sources

/-- The sources under a Claude home. -/
def claudeSources : Option ClaudeHome → List Source
  | none => []
  | some home => (entries home.projects).flatMap Project.sources

/-- The instruction files at the root of a store. -/
def instructionSources (store : Files) : List Source :=
  instructionFiles.flatMap fun file =>
    sourcesOf (store.readToString file.1) (instructionSource file.1 file.2)

/-- The files to import. -/
def sources (claudeHome : Option ClaudeHome) (store : Files) : List Source :=
  instructionSources store ++ claudeSources claudeHome

/-! ### One source -/

variable (T : CharTables)

/-- What importing a source does, when it succeeds. -/
def importStep (s : Import) (source : Source) : Import :=
  if (s.store.lookup source.dest).isSome then { s with skipped := s.skipped + 1 }
  else
    { s with
      imported := s.imported + 1
      store := s.store.insert source.dest (.text (source.rendered T)) }

variable {T}

theorem importStep_of_isSome {s : Import} {source : Source}
    (h : (s.store.lookup source.dest).isSome) :
    importStep T s source = { s with skipped := s.skipped + 1 } := if_pos h

theorem importStep_of_none {s : Import} {source : Source}
    (h : s.store.lookup source.dest = none) :
    importStep T s source = { s with
      imported := s.imported + 1
      store := s.store.insert source.dest (.text (source.rendered T)) } :=
  if_neg (by rw [h]; exact Bool.false_ne_true)

open Effect

theorem exec_importSource (faults : Str → Option Str) (source : Source) (s : Import) :
    exec (importSource T faults source) s =
      if (s.store.lookup source.dest).isSome ∨ faults source.dest = none then
        (.ok (), importStep T s source)
      else ((exec (attempt (faults source.dest)) s).1, s) := by
  rw [importSource, exec_bind, exec_focus, writeImportIfAbsent, exec_get_bind, importStep]
  split_ifs with hthere hfault hfault
  · rfl
  · exact absurd (.inl hthere) hfault
  · obtain hnone := hfault.resolve_left hthere
    rw [hnone]
    rfl
  · cases hnone : faults source.dest with
    | none => exact absurd (.inr hnone) hfault
    | some error => rfl

theorem importStep_of_exec {faults : Str → Option Str} {source : Source} {s s' : Import} {u : Unit}
    (h : exec (importSource T faults source) s = (.ok u, s')) : s' = importStep T s source := by
  rw [exec_importSource] at h
  split_ifs at h with hthere
  · exact (Prod.mk.inj h).2.symm
  · cases hnone : faults source.dest with
    | none => exact absurd (.inr hnone) hthere
    | some error =>
      rw [hnone] at h
      cases h

/-! ### A whole run -/

/-- What the store has at the places of the instruction files. -/
def Sees (view : Str → Option Content) (s : Import) : Prop :=
  ∀ file ∈ instructionFiles, s.store.lookup file.1 = view file.1

/-- The program imports the sources one after another.  Where they all are, it succeeds whatever
cannot be written, and only counts. -/
structure Imports (T : CharTables) (view : Str → Option Content)
    (program : (Str → Option Str) → Effect Import Str Unit) (l : List Source) : Prop where
  /-- It succeeds in no other way. -/
  first : ∀ faults s s', Sees view s → exec (program faults) s = (.ok (), s') →
    s' = l.foldl (importStep T) s
  /-- Once it has succeeded, what it reads can be read again. -/
  again : ∀ faults faults₀ s s₀ s', Sees view s₀ → exec (program faults₀) s₀ = (.ok (), s') →
    Sees view s → (∀ source ∈ l, (s.store.lookup source.dest).isSome) →
    exec (program faults) s = (.ok (), { s with skipped := s.skipped + l.length })

variable {view : Str → Option Content}

theorem dest_ne_of_mem {file : Str × Str} (h : file ∈ instructionFiles) (source : Source) :
    file.1 ≠ source.dest := by
  have hhead : source.dest.head? = some 'i' := rfl
  intro heq
  rw [← heq] at hhead
  simp only [instructionFiles, List.mem_cons, List.not_mem_nil, or_false] at h
  rcases h with rfl | rfl <;> exact absurd hhead (by decide)

theorem lookup_importStep (s : Import) (source : Source) (path : Str) :
    (importStep T s source).store.lookup path =
      if path = source.dest ∧ s.store.lookup path = none then some (.text (source.rendered T))
      else s.store.lookup path := by
  by_cases hdest : path = source.dest
  · subst hdest
    cases hlookup : s.store.lookup source.dest with
    | none => rw [importStep_of_none hlookup, AList.lookup_insert, if_pos ⟨rfl, rfl⟩]
    | some content =>
      rw [importStep_of_isSome (by rw [hlookup]; rfl), hlookup, if_neg (by simp)]
  · rw [if_neg fun h => hdest h.1]
    cases hlookup : s.store.lookup source.dest with
    | none => rw [importStep_of_none hlookup, AList.lookup_insert_ne hdest]
    | some content => rw [importStep_of_isSome (by rw [hlookup]; rfl)]

theorem lookup_importStep_eq_none_iff {s : Import} {source : Source} {path : Str} :
    (importStep T s source).store.lookup path = none ↔
      path ≠ source.dest ∧ s.store.lookup path = none := by
  rw [lookup_importStep]
  split_ifs with h
  · simp [h.1]
  · exact ⟨fun hnone => ⟨fun hdest => h ⟨hdest, hnone⟩, hnone⟩, fun hnone => hnone.2⟩

theorem lookup_importStep_of_some {s : Import} {path : Str} {content : Content}
    (h : s.store.lookup path = some content) (source : Source) :
    (importStep T s source).store.lookup path = some content := by
  rw [lookup_importStep, if_neg (by simp [h]), h]

theorem lookup_foldl_of_some {s : Import} {path : Str} {content : Content}
    (h : s.store.lookup path = some content) (l : List Source) :
    (l.foldl (importStep T) s).store.lookup path = some content := by
  induction l generalizing s with
  | nil => exact h
  | cons source l ih => exact ih (lookup_importStep_of_some h source)

theorem isSome_lookup_importStep (s : Import) (source : Source) :
    ((importStep T s source).store.lookup source.dest).isSome := by
  rw [lookup_importStep]
  split_ifs with h
  · rfl
  · exact Option.isSome_iff_ne_none.2 fun hnone => h ⟨rfl, hnone⟩

theorem isSome_lookup_foldl {source : Source} {l : List Source} (h : source ∈ l) (s : Import) :
    ((l.foldl (importStep T) s).store.lookup source.dest).isSome := by
  induction l generalizing s with
  | nil => exact absurd h List.not_mem_nil
  | cons source' l ih =>
    rcases List.mem_cons.1 h with rfl | h
    · obtain ⟨content, hcontent⟩ := Option.isSome_iff_exists.1 (isSome_lookup_importStep s source)
      rw [List.foldl_cons, lookup_foldl_of_some hcontent]
      rfl
    · exact ih h _

theorem Sees.foldl {s : Import} (h : Sees view s) (l : List Source) :
    Sees view (l.foldl (importStep T) s) := by
  induction l generalizing s with
  | nil => exact h
  | cons source l ih =>
    refine ih fun file hfile => ?_
    rw [lookup_importStep, if_neg fun heq => dest_ne_of_mem hfile source heq.1]
    exact h file hfile

namespace Imports

theorem congr {p q : (Str → Option Str) → Effect Import Str Unit} {l : List Source}
    (hq : Imports T view q l)
    (h : ∀ faults s, Sees view s → exec (p faults) s = exec (q faults) s) : Imports T view p l where
  first faults s s' hsees hexec := hq.first faults s s' hsees (h faults s hsees ▸ hexec)
  again faults faults₀ s s₀ s' hsees₀ hexec hsees hthere := by
    rw [h faults s hsees]
    exact hq.again faults faults₀ s s₀ s' hsees₀ (h faults₀ s₀ hsees₀ ▸ hexec) hsees hthere

theorem pure : Imports T view (fun _ => Pure.pure ()) [] where
  first _ _ _ _ h := (Prod.mk.inj h).2.symm
  again _ _ _ _ _ _ _ _ _ := rfl

theorem source (source : Source) :
    Imports T view (fun faults => importSource T faults source) [source] where
  first _ _ _ _ h := importStep_of_exec h
  again faults _ s _ _ _ _ _ hthere := by
    have hsome := hthere source List.mem_cons_self
    rw [exec_importSource, if_pos (.inl hsome), importStep_of_isSome hsome]
    rfl

theorem bind {p q : (Str → Option Str) → Effect Import Str Unit} {l m : List Source}
    (hp : Imports T view p l) (hq : Imports T view q m) :
    Imports T view (fun faults => p faults >>= fun _ => q faults) (l ++ m) where
  first faults s s' hsees h := by
    obtain ⟨u, s₁, h₁, h₂⟩ := exec_bind_eq_ok.1 h
    obtain rfl := hp.first faults s s₁ hsees h₁
    rw [List.foldl_append]
    exact hq.first faults _ s' (hsees.foldl l) h₂
  again faults faults₀ s s₀ s' hsees₀ h hsees hthere := by
    obtain ⟨u, s₁, h₁, h₂⟩ := exec_bind_eq_ok.1 h
    obtain rfl := hp.first faults₀ s₀ s₁ hsees₀ h₁
    have hp' := hp.again faults faults₀ s s₀ _ hsees₀ h₁ hsees fun source hsource =>
      hthere source (List.mem_append_left m hsource)
    have hq' := hq.again faults faults₀ { s with skipped := s.skipped + l.length } _ s'
      (hsees₀.foldl l) h₂ hsees fun source hsource =>
        hthere source (List.mem_append_right l hsource)
    rw [exec_bind, hp']
    dsimp only
    rw [hq', List.length_append, Nat.add_assoc]

theorem forM {α : Type} {p : (Str → Option Str) → α → Effect Import Str Unit} {l : List α}
    {sources : α → List Source} (h : ∀ a ∈ l, Imports T view (fun faults => p faults a) (sources a)) :
    Imports T view (fun faults => l.forM (p faults)) (l.flatMap sources) := by
  induction l with
  | nil => exact pure
  | cons a l ih =>
    exact (h a List.mem_cons_self).bind (ih fun b hb => h b (List.mem_cons_of_mem a hb))

theorem ofExcept {α : Type} {x : Except Str α}
    {p : (Str → Option Str) → α → Effect Import Str Unit} {sources : α → List Source}
    (h : ∀ a, x = .ok a → Imports T view (fun faults => p faults a) (sources a)) :
    Imports T view (fun faults => Effect.ofExcept x >>= p faults)
      (x.toOption.toList.flatMap sources) := by
  cases x with
  | error e =>
    refine ⟨fun _ _ _ _ h => ?_, fun _ _ _ _ _ _ h => ?_⟩ <;> cases h
  | ok a =>
    rw [show (Except.ok a : Except Str α).toOption.toList.flatMap sources = sources a from
      List.flatMap_singleton sources a]
    exact h a rfl

theorem forEntries {α : Type} {directory : Option (Directory α)}
    {p : (Str → Option Str) → α → Effect Import Str Unit} {sources : α → List Source}
    (h : ∀ a, Imports T view (fun faults => p faults a) (sources a)) :
    Imports T view (fun faults => Cli.forEntries directory (p faults))
      ((entries directory).flatMap sources) := by
  rcases directory with _ | (error | entries)
  · exact pure
  · refine ⟨fun _ _ _ _ h => ?_, fun _ _ _ _ _ _ h => ?_⟩ <;> cases h
  · have hentries : (Cli.entries (some (.ok entries))).flatMap sources =
        entries.flatMap fun entry => entry.toOption.toList.flatMap sources := by
      rw [Cli.entries, List.filterMap_eq_flatMap_toList, List.flatMap_assoc]
    rw [hentries]
    exact forM fun entry _ => ofExcept fun a _ => h a

end Imports

theorem imports_sourcesOf {x : Except Str Str} (source : Str → Source) :
    Imports T view
      (fun faults => Effect.ofExcept x >>= fun contents => importSource T faults (source contents))
      (sourcesOf x source) := by
  rw [sourcesOf, List.map_eq_flatMap]
  exact .ofExcept fun contents _ => .source (source contents)

theorem imports_importMemoryFile (file : MemoryFile) :
    Imports T view (fun faults => importMemoryFile T faults file) file.sources := by
  unfold importMemoryFile MemoryFile.sources
  split_ifs
  · exact imports_sourcesOf file.source
  · exact .pure

theorem imports_importClaudeHome (claudeHome : Option ClaudeHome) :
    Imports T view (fun faults => importClaudeHome T faults claudeHome)
      (claudeSources claudeHome) := by
  cases claudeHome with
  | none => exact .pure
  | some home => exact .forEntries fun project => .forEntries imports_importMemoryFile

/-- An instruction file is read where the store is looked at, so that what there is to import is
known from any store that has the same one. -/
theorem imports_importInstructionFile {file : Str × Str} (hfile : file ∈ instructionFiles)
    {store : Files} (hview : ∀ file ∈ instructionFiles, store.lookup file.1 = view file.1) :
    Imports T view (fun faults => importInstructionFile T faults file)
      (sourcesOf (store.readToString file.1) (instructionSource file.1 file.2)) := by
  have hread : ∀ s, Sees view s → s.store.readToString file.1 = store.readToString file.1 := by
    intro s hsees
    rw [Files.readToString, Files.readToString, hsees file hfile, hview file hfile]
  have hthere : ∀ s, Sees view s →
      (s.store.lookup file.1).isSome = (store.lookup file.1).isSome := by
    intro s hsees
    rw [hsees file hfile, hview file hfile]
  refine Imports.congr (q := fun faults =>
    if (store.lookup file.1).isSome then
      Effect.ofExcept (store.readToString file.1) >>= fun contents =>
        importSource T faults (instructionSource file.1 file.2 contents)
    else Pure.pure ()) ?_ fun faults s hsees => ?_
  · split_ifs with hsome
    · exact imports_sourcesOf _
    · rw [Option.not_isSome_iff_eq_none] at hsome
      rw [Files.readToString, hsome]
      exact .pure
  · rw [importInstructionFile, exec_get_bind, hthere s hsees, hread s hsees]

/-- **What `run_import` imports.** -/
theorem imports_importAll (claudeHome : Option ClaudeHome) {store : Files}
    (hview : ∀ file ∈ instructionFiles, store.lookup file.1 = view file.1) :
    Imports T view (fun faults => importAll T faults claudeHome) (sources claudeHome store) :=
  .bind (.forM fun _ hfile => imports_importInstructionFile hfile hview)
    (imports_importClaudeHome claudeHome)

/-! ### What arrives -/

theorem imported_foldl (s : Import) (l : List Source) :
    (l.foldl (importStep T) s).imported ≤ s.imported + l.length ∧
      ((l.foldl (importStep T) s).imported = s.imported + l.length ↔
        (∀ source ∈ l, s.store.lookup source.dest = none) ∧ (l.map Source.dest).Nodup) := by
  induction l generalizing s with
  | nil => simp
  | cons source l ih =>
    obtain ⟨hle, hiff⟩ := ih (importStep T s source)
    rw [List.foldl_cons]
    cases hlookup : s.store.lookup source.dest with
    | some content =>
      have himported : (importStep T s source).imported = s.imported := by
        rw [importStep_of_isSome (by rw [hlookup]; rfl)]
      rw [himported] at hle
      refine ⟨by simp only [List.length_cons]; omega, iff_of_false ?_ ?_⟩
      · simp only [List.length_cons]
        omega
      · rintro ⟨hnone, -⟩
        rw [hnone source List.mem_cons_self] at hlookup
        cases hlookup
    | none =>
      have himported : (importStep T s source).imported = s.imported + 1 := by
        rw [importStep_of_none hlookup]
      rw [himported] at hle hiff
      refine ⟨by simp only [List.length_cons]; omega, ?_⟩
      rw [List.length_cons, Nat.add_comm l.length, ← Nat.add_assoc, hiff, List.map_cons,
        List.nodup_cons, List.forall_mem_cons, and_iff_right hlookup, ← and_assoc]
      refine and_congr_left fun _ => ?_
      simp only [lookup_importStep_eq_none_iff, List.mem_map, not_exists, not_and]
      exact ⟨fun h => ⟨fun other hother => (h other hother).2, fun other hother => (h other hother).1⟩,
        fun h other hother => ⟨h.2 other hother, h.1 other hother⟩⟩

theorem lookup_foldl_dest {s : Import} {l : List Source}
    (hnew : ∀ source ∈ l, s.store.lookup source.dest = none) (hnodup : (l.map Source.dest).Nodup)
    {source : Source} (h : source ∈ l) :
    (l.foldl (importStep T) s).store.lookup source.dest = some (.text (source.rendered T)) := by
  induction l generalizing s with
  | nil => exact absurd h List.not_mem_nil
  | cons first l ih =>
    rw [List.map_cons, List.nodup_cons] at hnodup
    rw [List.foldl_cons]
    rcases List.mem_cons.1 h with rfl | h
    · refine lookup_foldl_of_some ?_ l
      rw [lookup_importStep, if_pos ⟨rfl, hnew source List.mem_cons_self⟩]
    · refine ih (fun other hother => ?_) hnodup.2 h
      exact lookup_importStep_eq_none_iff.2
        ⟨fun heq => hnodup.1 (heq ▸ List.mem_map_of_mem hother),
          hnew other (List.mem_cons_of_mem first hother)⟩

/-! ### The body -/

theorem innerLine_okfFrontmatterLines (T : CharTables) (title : Str) {itemType : Str}
    {scope : Option Str} (updated : Option Str) (htype : '\n' ∉ itemType)
    (hscope : ∀ s ∈ scope, '\n' ∉ s) :
    ∀ l ∈ okfFrontmatterLines T title itemType scope updated, Frontmatter.InnerLine l := by
  have hkey : ∀ (key : String) (value : Str), '\n' ∉ key.toList → ':' ∈ key.toList →
      '\n' ∉ value → Frontmatter.InnerLine (key.toList ++ value) := fun key value hlf hcolon hvalue =>
    ⟨by simp [hlf, hvalue], List.mem_append_left _ hcolon⟩
  intro l hl
  simp only [okfFrontmatterLines, List.mem_append, List.mem_cons, List.not_mem_nil, or_false,
    Option.mem_toList, Option.map_eq_some_iff] at hl
  rcases hl with (((rfl | rfl) | ⟨s, hs, rfl⟩) | rfl | rfl | rfl) | ⟨u, -, rfl⟩
  · exact hkey _ _ (by decide) (by decide) (lf_notMem_debug title)
  · exact hkey _ _ (by decide) (by decide) htype
  · exact hkey _ _ (by decide) (by decide) (hscope s hs)
  · exact ⟨by decide, by decide⟩
  · exact ⟨by decide, by decide⟩
  · exact ⟨by decide, by decide⟩
  · exact hkey _ _ (by decide) (by decide) (lf_notMem_debug u)

/-- Nothing that is written as it is holds a line feed. -/
def Source.Clean (source : Source) : Prop :=
  '\n' ∉ source.itemType ∧ (∀ s ∈ source.scope, '\n' ∉ s) ∧ trim source.body = source.body

theorem Source.Clean.parse_rendered {source : Source} (h : source.Clean) (T : CharTables) :
    trim (Frontmatter.parse (source.rendered T)).body = source.body := by
  obtain ⟨htype, hscope, hbody⟩ := h
  have hsplit : (Frontmatter.stripOpeningDelimiter (source.rendered T)).bind
      Frontmatter.splitAtClosingDelimiter = some
        ((okfFrontmatterLines T source.title source.itemType source.scope source.updated).flatMap
          (· ++ ['\n']), "\n".toList ++ (source.body ++ "\n".toList)) := by
    rw [Source.rendered, okfFrontmatterBlock, hbody]
    simp only [List.append_assoc]
    rw [Frontmatter.stripOpeningDelimiter_append, Option.bind_some]
    exact Frontmatter.splitAtClosingDelimiter_innerLines
      (innerLine_okfFrontmatterLines T source.title source.updated htype hscope) _
  rw [Frontmatter.parse_of_split hsplit]
  exact (trim_cons_of_ws (by decide)).trans ((trim_concat (by decide)).trans hbody)

theorem clean_instructionSource (filename slug contents : Str) :
    (instructionSource filename slug contents).Clean := by
  refine ⟨?_, fun s hs => ?_, trim_trim contents⟩
  · show '\n' ∉ "instruction".toList
    decide
  · cases hs

theorem lf_notMem_mapClaudeMemoryType (t : Option Str) :
    '\n' ∉ (mapClaudeMemoryType t).1 ∧ ∀ s ∈ (mapClaudeMemoryType t).2, '\n' ∉ s := by
  unfold mapClaudeMemoryType
  split_ifs <;> exact ⟨by decide, by decide⟩

/-- The parts of a memory file that are written as they are. -/
def ClaudeMemoryItem.Clean (item : ClaudeMemoryItem) : Prop :=
  '\n' ∉ item.itemType ∧ (∀ s ∈ item.scope, '\n' ∉ s) ∧ trim item.body = item.body

theorem clean_plainMemory (contents : Str) : (plainMemory contents).Clean := by
  refine ⟨?_, fun s hs => ?_, trim_trim contents⟩
  · show '\n' ∉ "knowledge".toList
    decide
  · cases hs

theorem clean_parseClaudeMemoryFile (contents : Str) : (parseClaudeMemoryFile contents).Clean := by
  have hplain := clean_plainMemory contents
  unfold parseClaudeMemoryFile
  split
  · exact hplain
  · split
    · exact hplain
    · obtain ⟨htype, hscope⟩ := lf_notMem_mapClaudeMemoryType _
      exact ⟨htype, hscope, trim_trim _⟩

theorem MemoryFile.clean_of_mem_sources {file : MemoryFile} {source : Source}
    (h : source ∈ file.sources) : source.Clean := by
  unfold MemoryFile.sources at h
  split_ifs at h
  · obtain ⟨contents, -, rfl⟩ := List.mem_map.1 h
    exact clean_parseClaudeMemoryFile contents
  · exact absurd h List.not_mem_nil

theorem clean_of_mem_sources {claudeHome : Option ClaudeHome} {store : Files} {source : Source}
    (h : source ∈ sources claudeHome store) : source.Clean := by
  rcases List.mem_append.1 h with h | h
  · obtain ⟨file, -, h⟩ := List.mem_flatMap.1 h
    obtain ⟨contents, -, rfl⟩ := List.mem_map.1 h
    exact clean_instructionSource file.1 file.2 contents
  · cases claudeHome with
    | none => exact absurd h List.not_mem_nil
    | some home =>
      obtain ⟨project, -, h⟩ := List.mem_flatMap.1 h
      obtain ⟨file, -, h⟩ := List.mem_flatMap.1 h
      exact MemoryFile.clean_of_mem_sources h

/-! ### The stems -/

/-- The stems of the names of the memory files. -/
def MemoryFile.stems (file : MemoryFile) : List Str :=
  if file.isMarkdown then
    file.contents.toOption.toList.map fun _ => toStringLossy (rsplitFileAtDot file.name).1
  else []

/-- The stems of the names of the memory files under a Claude home. -/
def claudeStems : Option ClaudeHome → List Str
  | none => []
  | some home => (entries home.projects).flatMap fun project =>
      (entries project.memory).flatMap MemoryFile.stems

theorem MemoryFile.map_slug_sources (file : MemoryFile) :
    file.sources.map Source.slug = file.stems.map ("claude-memory-".toList ++ ·) := by
  unfold MemoryFile.sources MemoryFile.stems
  split_ifs
  · rw [sourcesOf, List.map_map, List.map_map]
    rfl
  · rfl

theorem map_slug_claudeSources (claudeHome : Option ClaudeHome) :
    (claudeSources claudeHome).map Source.slug =
      (claudeStems claudeHome).map ("claude-memory-".toList ++ ·) := by
  cases claudeHome with
  | none => rfl
  | some home =>
    rw [claudeSources, claudeStems, List.map_flatMap, List.map_flatMap]
    refine List.flatMap_congr fun project _ => ?_
    rw [Project.sources, List.map_flatMap, List.map_flatMap]
    exact List.flatMap_congr fun file _ => file.map_slug_sources

theorem map_slug_instructionSources (store : Files) :
    ((instructionSources store).map Source.slug).Sublist (instructionFiles.map Prod.snd) := by
  have hone : ∀ file : Str × Str, ((sourcesOf (store.readToString file.1)
      (instructionSource file.1 file.2)).map Source.slug).Sublist [file.2] := by
    intro file
    rw [sourcesOf]
    cases store.readToString file.1 with
    | error e => exact List.nil_sublist _
    | ok contents => exact List.Sublist.refl _
  rw [instructionSources, List.map_flatMap]
  exact (hone _).append ((hone _).append (List.nil_sublist _))

theorem nodup_dest_iff (claudeHome : Option ClaudeHome) (store : Files) :
    ((sources claudeHome store).map Source.dest).Nodup ↔ (claudeStems claudeHome).Nodup := by
  have hdest : Source.dest = (fun slug => "inbox/import/".toList ++ slug ++ ".md".toList) ∘
      Source.slug := rfl
  have hinjective : Function.Injective fun slug : Str =>
      "inbox/import/".toList ++ slug ++ ".md".toList := fun a b hab =>
    List.append_cancel_left (List.append_cancel_right hab)
  rw [hdest, ← List.map_map, List.nodup_map_iff hinjective, sources, List.map_append,
    map_slug_claudeSources, List.nodup_append',
    List.nodup_map_iff fun a b hab => List.append_cancel_left hab]
  have hinstruction : (instructionFiles.map Prod.snd).Nodup := by decide
  refine ⟨fun h => h.2.1, fun h => ⟨hinstruction.sublist (map_slug_instructionSources store), h, ?_⟩⟩
  intro slug hslug hmem
  obtain ⟨stem, -, rfl⟩ := List.mem_map.1 hmem
  have hmem' := (map_slug_instructionSources store).subset hslug
  have hlong : ∀ slug ∈ instructionFiles.map Prod.snd, slug.length < 14 := by decide
  have hlength := hlong _ hmem'
  rw [List.length_append] at hlength
  exact absurd hlength (by simp)

/-! ### The claim -/

theorem Source.isPrefix_dest (source : Source) : "inbox/import/".toList <+: source.dest :=
  ⟨source.slug ++ ".md".toList, (List.append_assoc _ _ _).symm⟩

/-- The store has nothing under `inbox/import`. -/
def NoImports (store : Files) : Prop := ∀ path ∈ store, ¬ "inbox/import/".toList <+: path

/-- An import from the store, which left the summary and the store `after`, lost nothing. -/
structure LosesNothing (T : CharTables) (claudeHome : Option ClaudeHome) (store : Files)
    (summary : ImportSummary) (after : Files) : Prop where
  /-- Every parsed body is the body of a file under `inbox/import`. -/
  bodies : ∀ source ∈ sources claudeHome store, ∃ path content,
    "inbox/import/".toList <+: path ∧ after.lookup path = some (.text content) ∧
      trim (Frontmatter.parse content).body = source.body
  /-- Every file counts. -/
  imported : summary.imported = (sources claudeHome store).length
  /-- Another run imports nothing and changes no file. -/
  again : ∀ faults, runImport T faults claudeHome after =
    (.ok ⟨0, (sources claudeHome store).length⟩, after)

theorem runImport_eq_ok_iff {claudeHome : Option ClaudeHome} {store after : Files}
    {faults : Str → Option Str} {summary : ImportSummary} :
    runImport T faults claudeHome store = (.ok summary, after) ↔
      ∃ s, exec (importAll T faults claudeHome) ⟨0, 0, store⟩ = (.ok (), s) ∧
        summary = ⟨s.imported, s.skipped⟩ ∧ after = s.store := by
  rw [runImport]
  rcases exec (importAll T faults claudeHome) ⟨0, 0, store⟩ with ⟨error | u, s⟩
  · simp [Except.map]
  · simp [Except.map, eq_comm]

/-- **Import loses nothing**, in a store without imports, exactly when no two memory files have the
same stem, from whatever projects they are. -/
theorem losesNothing_iff {claudeHome : Option ClaudeHome} {store after : Files}
    {faults : Str → Option Str} {summary : ImportSummary} (hnew : NoImports store)
    (hrun : runImport T faults claudeHome store = (.ok summary, after)) :
    LosesNothing T claudeHome store summary after ↔ (claudeStems claudeHome).Nodup := by
  obtain ⟨s, hexec, rfl, rfl⟩ := runImport_eq_ok_iff.1 hrun
  have hsees : Sees (store.lookup ·) ⟨0, 0, store⟩ := fun _ _ => rfl
  have himports := @imports_importAll T (store.lookup ·) claudeHome store fun _ _ => rfl
  have hs := himports.first faults _ s hsees hexec
  have hnone : ∀ source ∈ sources claudeHome store, store.lookup source.dest = none := by
    intro source _
    exact AList.lookup_eq_none.2 fun hmem => hnew source.dest hmem source.isPrefix_dest
  have hcount := (imported_foldl (T := T) ⟨0, 0, store⟩ (sources claudeHome store)).2
  rw [← hs, Nat.zero_add, and_iff_right hnone, nodup_dest_iff] at hcount
  refine ⟨fun h => hcount.1 h.imported, fun hnodup => ⟨fun source hsource => ?_, hcount.2 hnodup,
    fun faults' => ?_⟩⟩
  · refine ⟨source.dest, source.rendered T, source.isPrefix_dest, ?_,
      (clean_of_mem_sources hsource).parse_rendered T⟩
    rw [hs]
    exact lookup_foldl_dest hnone ((nodup_dest_iff claudeHome store).2 hnodup) hsource
  · have hsees' : Sees (store.lookup ·) s := hs ▸ hsees.foldl (sources claudeHome store)
    have hthere : ∀ source ∈ sources claudeHome store, (s.store.lookup source.dest).isSome := by
      intro source hsource
      rw [hs]
      exact isSome_lookup_foldl hsource _
    have hagain := himports.again faults' faults ⟨0, 0, s.store⟩ _ s hsees hexec hsees' hthere
    rw [Nat.zero_add] at hagain
    exact runImport_eq_ok_iff.2 ⟨_, hagain, rfl, rfl⟩

/-- A Claude home of two projects with one memory file each. -/
def exampleHome (stem stem' : Str) : ClaudeHome :=
  ⟨some (.ok [project stem "first".toList, project stem' "second".toList])⟩
where
  /-- A project with one memory file. -/
  project (stem contents : Str) : Except Str Project :=
    .ok ⟨some (.ok [.ok ⟨utf8 (stem ++ ".md".toList), .ok contents⟩])⟩

theorem runImport_exampleHome : (runImport .asciiOnly (fun _ => none)
    (some (exampleHome "a".toList "b".toList)) ∅).1 = .ok ⟨2, 0⟩ := by
  decide +kernel

theorem losesNothing_iff_exampleHome : LosesNothing .asciiOnly
    (some (exampleHome "a".toList "b".toList)) ∅ ⟨2, 0⟩
      (runImport .asciiOnly (fun _ => none) (some (exampleHome "a".toList "b".toList)) ∅).2 :=
  (losesNothing_iff (fun _ h => absurd h (AList.notMem_empty _))
    (Prod.ext runImport_exampleHome rfl)).2 (by decide +kernel)

theorem not_losesNothing : ¬ ∀ summary after,
    runImport .asciiOnly (fun _ => none) (some (exampleHome "notes".toList "notes".toList)) ∅ =
      (.ok summary, after) →
    LosesNothing .asciiOnly (some (exampleHome "notes".toList "notes".toList)) ∅ summary after := by
  intro h
  have hrun : (runImport .asciiOnly (fun _ => none)
      (some (exampleHome "notes".toList "notes".toList)) ∅).1 = .ok ⟨1, 1⟩ := by
    decide +kernel
  exact absurd (h ⟨1, 1⟩ _ (Prod.ext hrun rfl)).imported (by decide +kernel)

end Cli

end Wkp
