import Wkp.Git.Plumbing
import Mathlib.Data.Vector.Basic

/-!
# Status records

What `git status --porcelain=v2` prints, and the two readers of it.

* `Git.Record`, `Git.printStatus` : the records, and their text.
* `Git.parsePorcelainV2`, `Git.parsePorcelainV2_printStatus` : the reader of changes puts every
  record in the class that its codes denote (`Git.Record.change`).
* `Git.parseConflicts`, `Git.parseConflicts_printStatus` : the reader of conflicts keeps the
  unmerged records.
* `Git.printBareStatus`, `Git.parse_printBareStatus` : the same of paths that are printed as they are,
  **class by class**.
-/

namespace Wkp

open Rust

namespace Git

/-! ### Records -/

/-- One side of a status code. -/
inductive Code
  | unmodified | modified | typeChanged | added | deleted | renamed | copied | unmerged
  deriving DecidableEq, Repr

/-- The letter of a code. -/
def Code.letter : Code → Char
  | unmodified => '.'
  | modified => 'M'
  | typeChanged => 'T'
  | added => 'A'
  | deleted => 'D'
  | renamed => 'R'
  | copied => 'C'
  | unmerged => 'U'

/-- A field that the readers skip (a mode, an object, a score): printed without blanks. -/
structure Word where
  /-- Its characters. -/
  chars : Str
  /-- None of them is a blank. -/
  printed : ∀ c ∈ chars, c ≠ ' ' ∧ c ≠ '\n' ∧ c ≠ '\r'

/-- A record of the status.  Paths are not quoted yet. -/
inductive Record
  | ordinary (x y : Code) (fields : List.Vector Word 6) (path : Str)
  | renamed (x y : Code) (fields : List.Vector Word 7) (path origPath : Str)
  | untracked (path : Str)
  | unmerged (x y : Code) (fields : List.Vector Word 8) (path : Str)

/-- The two letters of a pair of codes. -/
def xyText (x y : Code) : Str := [x.letter, y.letter]

/-- The pieces of a record, which blanks separate. -/
def Record.pieces : Record → List Str
  | ordinary x y fields path =>
    ['1'] :: xyText x y :: (fields.toList.map Word.chars ++ [quotePath path])
  | renamed x y fields path origPath =>
    ['2'] :: xyText x y ::
      (fields.toList.map Word.chars ++ [quotePath path ++ '\t' :: quotePath origPath])
  | untracked path => [['?'], quotePath path]
  | unmerged x y fields path =>
    ['u'] :: xyText x y :: (fields.toList.map Word.chars ++ [quotePath path])

/-- The line of a record. -/
def Record.line (r : Record) : Str := join [' '] r.pieces

/-- The text of the records, one a line. -/
def printStatus (rs : List Record) : Str := (rs.map Record.line).flatMap (· ++ ['\n'])

/-! ### Paths as they are -/

/-- The paths of a record. -/
def Record.paths : Record → List Str
  | ordinary _ _ _ path | untracked path | unmerged _ _ _ path => [path]
  | renamed _ _ _ path origPath => [path, origPath]

/-- The paths can be printed as they are: no control character is in them. -/
def Record.Bare (r : Record) : Prop := ∀ p ∈ r.paths, ∀ c ∈ p, 0x20 ≤ c.toNat

instance : DecidablePred Record.Bare := fun r =>
  decidable_of_iff ((r.paths.all fun p => p.all fun c => 0x20 ≤ c.toNat) = true)
    (by simp [Record.Bare])

/-- The pieces of a record whose paths are printed as they are. -/
def Record.barePieces : Record → List Str
  | ordinary x y fields path => ['1'] :: xyText x y :: (fields.toList.map Word.chars ++ [path])
  | renamed x y fields path origPath =>
    ['2'] :: xyText x y :: (fields.toList.map Word.chars ++ [path ++ '\t' :: origPath])
  | untracked path => [['?'], path]
  | unmerged x y fields path => ['u'] :: xyText x y :: (fields.toList.map Word.chars ++ [path])

/-- The line of such a record. -/
def Record.bareLine (r : Record) : Str := join [' '] r.barePieces

/-- The text of such records. -/
def printBareStatus (rs : List Record) : Str := (rs.map Record.bareLine).flatMap (· ++ ['\n'])

/-- The record with its paths as git prints them. -/
def Record.quoted : Record → Record
  | ordinary x y fields path => ordinary x y fields (quotePath path)
  | renamed x y fields path origPath => renamed x y fields (quotePath path) (quotePath origPath)
  | untracked path => untracked (quotePath path)
  | unmerged x y fields path => unmerged x y fields (quotePath path)

theorem Record.line_eq (r : Record) : r.line = r.quoted.bareLine := by
  cases r <;> rfl

theorem Record.bare_quoted (r : Record) : r.quoted.Bare := by
  have hquote : ∀ (p : Str), ∀ c ∈ quotePath p, 0x20 ≤ c.toNat := fun p c hc =>
    (printable_quotePath hc).1
  intro p hp
  obtain ⟨q, rfl⟩ : ∃ q, p = quotePath q := by
    cases r <;> simp only [paths, quoted, List.mem_cons, List.not_mem_nil, or_false] at hp
    case renamed x y fields path origPath =>
      rcases hp with rfl | rfl
      exacts [⟨path, rfl⟩, ⟨origPath, rfl⟩]
    all_goals exact ⟨_, hp⟩
  exact hquote q

theorem printStatus_eq (rs : List Record) :
    printStatus rs = printBareStatus (rs.map Record.quoted) := by
  rw [printStatus, printBareStatus, List.map_map]
  exact congrArg (fun ls => List.flatMap (· ++ ['\n']) ls)
    (List.map_congr_left fun r _ => r.line_eq)

/-! ### The reader of changes -/

/-- A rename, from one path to another. -/
structure Renamed where
  /-- The old path. -/
  source : Str
  /-- The new path. -/
  target : Str
  deriving DecidableEq, Repr

/-- Which files of the store changed. -/
structure ChangeSet where
  /-- New files. -/
  added : List Str
  /-- Files to read again. -/
  modified : List Str
  /-- Files that are gone. -/
  deleted : List Str
  /-- Files that moved. -/
  renamed : List Renamed
  deriving DecidableEq, Repr

/-- Put a path in the class of its two letters. -/
def classifyOrdinary (xy path : Str) (changes : ChangeSet) : ChangeSet :=
  let x := (xy[0]?).getD '.'
  let y := (xy[1]?).getD '.'
  if x = 'D' ∨ y = 'D' then { changes with deleted := changes.deleted ++ [path] }
  else if x = 'A' then { changes with added := changes.added ++ [path] }
  else { changes with modified := changes.modified ++ [path] }

/-- One line of the status. -/
def parseStatusLine (changes : ChangeSet) (line : Str) : ChangeSet :=
  match splitOnce ' ' line with
  | none => changes
  | some (kind, rest) =>
    if kind = ['1'] then
      match splitn ' ' 8 rest with
      | [xy, _, _, _, _, _, _, path] => classifyOrdinary xy path changes
      | _ => changes
    else if kind = ['2'] then
      match splitn ' ' 9 rest with
      | [_, _, _, _, _, _, _, _, tail] => match splitOnce '\t' tail with
        | some (target, source) =>
          { changes with renamed := changes.renamed ++ [⟨source, target⟩] }
        | none => changes
      | _ => changes
    else if kind = ['?'] then { changes with added := changes.added ++ [rest] }
    else if kind = ['u'] then
      match splitn ' ' 10 rest with
      | [_, _, _, _, _, _, _, _, _, path] =>
        { changes with modified := changes.modified ++ [path] }
      | _ => changes
    else changes

/-- The changes that the status prints. -/
def parsePorcelainV2 (output : Str) : ChangeSet :=
  (lines output).foldl parseStatusLine ⟨[], [], [], []⟩

/-! ### The reader of conflicts -/

/-- The side that deleted a path that the other modified. -/
inductive DeletedBy
  | ours | theirs
  deriving DecidableEq, Repr

/-- The class of an unmerged path. -/
inductive ConflictKind
  | modifyDelete (deletedBy : DeletedBy)
  | content | addAdd | bothDeleted | other
  deriving DecidableEq, Repr

/-- A path left unmerged. -/
structure Conflict where
  /-- The path, as git prints it. -/
  path : Str
  /-- Its class. -/
  kind : ConflictKind
  deriving DecidableEq, Repr

/-- The class that two letters denote. -/
def conflictKind (xy : Str) : ConflictKind :=
  if xy = ['D', 'U'] then .modifyDelete .ours
  else if xy = ['U', 'D'] then .modifyDelete .theirs
  else if xy = ['U', 'U'] then .content
  else if xy = ['A', 'A'] then .addAdd
  else if xy = ['D', 'D'] then .bothDeleted
  else .other

/-- The conflict on a line of the status, if it is that of an unmerged path. -/
def parseConflictLine (line : Str) : Option Conflict :=
  match splitOnce ' ' line with
  | none => none
  | some (kind, rest) =>
    if kind = ['u'] then
      match splitn ' ' 10 rest with
      | [xy, _, _, _, _, _, _, _, _, path] => some ⟨path, conflictKind xy⟩
      | _ => none
    else none

/-- The conflicts that the status prints. -/
def parseConflicts (output : Str) : List Conflict := (lines output).filterMap parseConflictLine

/-! ### Reading back -/

theorem notMem_xyText (x y : Code) {c : Char} (hc : c = ' ' ∨ c = '\n' ∨ c = '\r') :
    c ∉ xyText x y := by
  rcases hc with rfl | rfl | rfl <;> cases x <;> cases y <;> decide

theorem notMem_fields {n : ℕ} (fields : List.Vector Word n) {c : Char}
    (hc : c = ' ' ∨ c = '\n' ∨ c = '\r') : ∀ p ∈ fields.toList.map Word.chars, c ∉ p := by
  intro p hp hmem
  obtain ⟨w, -, rfl⟩ := List.mem_map.1 hp
  have := w.printed c hmem
  tauto

theorem notMem_bareLine {r : Record} (h : r.Bare) {c : Char} (hc : c = '\n' ∨ c = '\r') :
    c ∉ r.bareLine := by
  have hblank : c = ' ' ∨ c = '\n' ∨ c = '\r' := .inr hc
  have hpath : ∀ p ∈ r.paths, c ∉ p := by
    intro p hp hmem
    have := h p hp c hmem
    rcases hc with rfl | rfl <;> exact absurd this (by decide)
  have hkind : ∀ k : Char, k ∈ ['1', '2', '?', 'u', '\t', ' '] → c ≠ k := by
    rcases hc with rfl | rfl <;> simp
  refine notMem_join (List.mem_singleton.not.2 (hkind ' ' (by decide))) fun p hp => ?_
  -- the letters, the fields and the paths of each kind of record
  cases r <;> simp only [Record.barePieces, List.mem_cons, List.mem_append, List.not_mem_nil,
    or_false] at hp
  case untracked path =>
    rcases hp with rfl | rfl
    · simpa using hkind '?' (by decide)
    · exact hpath p List.mem_cons_self
  case renamed x y fields path origPath =>
    rcases hp with rfl | rfl | hp | rfl
    · simpa using hkind '2' (by decide)
    · exact notMem_xyText x y hblank
    · exact notMem_fields fields hblank p hp
    · rw [List.mem_append, List.mem_cons, not_or, not_or]
      exact ⟨hpath path (by simp [Record.paths]), hkind '\t' (by decide),
        hpath origPath (by simp [Record.paths])⟩
  case ordinary x y fields path =>
    rcases hp with rfl | rfl | hp | rfl
    · simpa using hkind '1' (by decide)
    · exact notMem_xyText x y hblank
    · exact notMem_fields fields hblank p hp
    · exact hpath p List.mem_cons_self
  case unmerged x y fields path =>
    rcases hp with rfl | rfl | hp | rfl
    · simpa using hkind 'u' (by decide)
    · exact notMem_xyText x y hblank
    · exact notMem_fields fields hblank p hp
    · exact hpath p List.mem_cons_self

theorem lines_printBareStatus {rs : List Record} (h : ∀ r ∈ rs, r.Bare) :
    lines (printBareStatus rs) = rs.map Record.bareLine := by
  refine lines_flatMap fun l hl => ?_
  obtain ⟨r, hr, rfl⟩ := List.mem_map.1 hl
  exact ⟨notMem_bareLine (h r hr) (.inl rfl), notMem_bareLine (h r hr) (.inr rfl)⟩

/-- A line of blank-free pieces and a last one splits at the first blank, and the rest into the
other pieces. -/
theorem splitOnce_line {kind xy last : Str} (hkind : ' ' ∉ kind) (fields : List Str) :
    splitOnce ' ' (join [' '] (kind :: xy :: (fields ++ [last]))) =
      some (kind, join [' '] ((xy :: fields) ++ [last])) :=
  splitOnce_join hkind (List.cons_ne_nil _ _)

/-- What a record says of its path. -/
inductive Change
  | added (path : Str)
  | modified (path : Str)
  | deleted (path : Str)
  | renamed (r : Renamed)
  deriving DecidableEq, Repr

/-- A change set with one more change in it. -/
def ChangeSet.add (changes : ChangeSet) : Change → ChangeSet
  | .added path => { changes with added := changes.added ++ [path] }
  | .modified path => { changes with modified := changes.modified ++ [path] }
  | .deleted path => { changes with deleted := changes.deleted ++ [path] }
  | .renamed r => { changes with renamed := changes.renamed ++ [r] }

/-- The change of a record. -/
def Record.change : Record → Change
  | ordinary x y _ path =>
    if x = .deleted ∨ y = .deleted then .deleted (quotePath path)
    else if x = .added then .added (quotePath path)
    else .modified (quotePath path)
  | renamed _ _ _ path origPath => .renamed ⟨quotePath origPath, quotePath path⟩
  | untracked path => .added (quotePath path)
  | unmerged _ _ _ path => .modified (quotePath path)

theorem classifyOrdinary_xyText (x y : Code) (path : Str) (changes : ChangeSet) :
    classifyOrdinary (xyText x y) path changes = changes.add (
      if x = .deleted ∨ y = .deleted then .deleted path
      else if x = .added then .added path
      else .modified path) := by
  cases x <;> cases y <;> rfl

theorem splitn_fields (x y : Code) {n : ℕ} (fields : List.Vector Word n) (last : Str) :
    splitn ' ' (n + 2) (join [' '] ((xyText x y :: fields.toList.map Word.chars) ++ [last])) =
      xyText x y :: (fields.toList.map Word.chars ++ [last]) := by
  have hblank : ∀ p ∈ xyText x y :: fields.toList.map Word.chars, ' ' ∉ p := by
    intro p hp
    rcases List.mem_cons.1 hp with rfl | hp
    · exact notMem_xyText x y (.inl rfl)
    · exact notMem_fields fields (.inl rfl) p hp
  have hsplit := splitn_join hblank last
  rwa [List.length_cons, List.length_map, List.Vector.toList_length] at hsplit

/-- The change of a record whose paths are printed as they are. -/
def Record.bareChange : Record → Change
  | ordinary x y _ path =>
    if x = .deleted ∨ y = .deleted then .deleted path
    else if x = .added then .added path
    else .modified path
  | renamed _ _ _ path origPath => .renamed ⟨origPath, path⟩
  | untracked path => .added path
  | unmerged _ _ _ path => .modified path

theorem parseStatusLine_bareLine (changes : ChangeSet) {r : Record} (h : r.Bare) :
    parseStatusLine changes r.bareLine = changes.add r.bareChange := by
  rw [parseStatusLine, Record.bareLine]
  cases r with
  | ordinary x y fields path =>
    rw [Record.barePieces, splitOnce_line (by decide)]
    simp only [splitn_fields]
    -- the reader takes the fields apart one by one
    iterate 6 obtain ⟨_, fields, rfl⟩ := fields.exists_eq_cons
    rw [fields.eq_nil]
    exact classifyOrdinary_xyText x y _ changes
  | renamed x y fields path origPath =>
    rw [Record.barePieces, splitOnce_line (by decide)]
    simp only [splitn_fields]
    have htab : '\t' ∉ path := fun hmem =>
      absurd (h path (by simp [Record.paths]) '\t' hmem) (by decide)
    have htail : splitOnce '\t' (path ++ '\t' :: origPath) = some (path, origPath) :=
      splitOnce_append htab _
    iterate 7 obtain ⟨_, fields, rfl⟩ := fields.exists_eq_cons
    rw [fields.eq_nil]
    simp [htail, Record.bareChange, ChangeSet.add]
  | untracked path =>
    rw [Record.barePieces, splitOnce_join (by decide) (List.cons_ne_nil _ _), join,
      List.intercalate_singleton]
    rfl
  | unmerged x y fields path =>
    rw [Record.barePieces, splitOnce_line (by decide)]
    simp only [splitn_fields]
    iterate 8 obtain ⟨_, fields, rfl⟩ := fields.exists_eq_cons
    rw [fields.eq_nil]
    rfl

theorem parsePorcelainV2_printBareStatus {rs : List Record} (h : ∀ r ∈ rs, r.Bare) :
    parsePorcelainV2 (printBareStatus rs) =
      (rs.map Record.bareChange).foldl .add ⟨[], [], [], []⟩ := by
  rw [parsePorcelainV2, lines_printBareStatus h, List.foldl_map, List.foldl_map]
  exact List.foldl_ext _ _ _ fun changes r hr => parseStatusLine_bareLine changes (h r hr)

/-- **The status reads back record by record.** -/
theorem parsePorcelainV2_printStatus (rs : List Record) :
    parsePorcelainV2 (printStatus rs) = (rs.map Record.change).foldl .add ⟨[], [], [], []⟩ := by
  rw [printStatus_eq, parsePorcelainV2_printBareStatus, List.map_map]
  · refine congrArg (fun cs => List.foldl ChangeSet.add _ cs) (List.map_congr_left fun r _ => ?_)
    cases r <;> rfl
  · exact List.forall_mem_map.2 fun r _ => r.bare_quoted

theorem mem_foldl_add (cs : List Change) (changes : ChangeSet) :
    (∀ p, p ∈ (cs.foldl .add changes).added ↔ p ∈ changes.added ∨ .added p ∈ cs) ∧
    (∀ p, p ∈ (cs.foldl .add changes).modified ↔ p ∈ changes.modified ∨ .modified p ∈ cs) ∧
    (∀ p, p ∈ (cs.foldl .add changes).deleted ↔ p ∈ changes.deleted ∨ .deleted p ∈ cs) ∧
    (∀ r, r ∈ (cs.foldl .add changes).renamed ↔ r ∈ changes.renamed ∨ .renamed r ∈ cs) := by
  induction cs generalizing changes with
  | nil => simp
  | cons c cs ih =>
    obtain ⟨h₁, h₂, h₃, h₄⟩ := ih (changes.add c)
    simp only [List.foldl_cons, h₁, h₂, h₃, h₄]
    cases c <;> simp [ChangeSet.add, or_assoc, eq_comm]

/-- The conflict of a record. -/
def Record.conflict : Record → Option Conflict
  | unmerged x y _ path => some ⟨quotePath path, conflictKind (xyText x y)⟩
  | _ => none

/-- The conflict of a record whose paths are printed as they are. -/
def Record.bareConflict : Record → Option Conflict
  | unmerged x y _ path => some ⟨path, conflictKind (xyText x y)⟩
  | _ => none

theorem parseConflictLine_bareLine (r : Record) : parseConflictLine r.bareLine = r.bareConflict := by
  rw [parseConflictLine, Record.bareLine]
  cases r with
  | ordinary x y fields path =>
    rw [Record.barePieces, splitOnce_line (by decide)]
    rfl
  | renamed x y fields path origPath =>
    rw [Record.barePieces, splitOnce_line (by decide)]
    rfl
  | untracked path =>
    rw [Record.barePieces, splitOnce_join (by decide) (List.cons_ne_nil _ _)]
    rfl
  | unmerged x y fields path =>
    rw [Record.barePieces, splitOnce_line (by decide)]
    simp only [splitn_fields]
    obtain ⟨fields, hlen⟩ := fields
    match fields, hlen with
    | [_, _, _, _, _, _, _, _], _ => rfl

theorem parseConflicts_printBareStatus {rs : List Record} (h : ∀ r ∈ rs, r.Bare) :
    parseConflicts (printBareStatus rs) = rs.filterMap Record.bareConflict := by
  rw [parseConflicts, lines_printBareStatus h, List.filterMap_map]
  exact List.filterMap_congr fun r _ => parseConflictLine_bareLine r

/-- **The conflicts are those of the unmerged records.** -/
theorem parseConflicts_printStatus (rs : List Record) :
    parseConflicts (printStatus rs) = rs.filterMap Record.conflict := by
  rw [printStatus_eq, parseConflicts_printBareStatus, List.filterMap_map]
  · refine List.filterMap_congr fun r _ => ?_
    cases r <;> rfl
  · exact List.forall_mem_map.2 fun r _ => r.bare_quoted

/-! ### Classes -/

/-- The class of a change. -/
inductive ChangeClass
  | added | modified | deleted | renamed
  deriving DecidableEq

/-- The codes of a rename or a copy. -/
def IsMove (x y : Code) : Prop := x ∈ [Code.renamed, .copied] ∨ y ∈ [Code.renamed, .copied]

instance (x y : Code) : Decidable (IsMove x y) := inferInstanceAs (Decidable (_ ∨ _))

/-- The class that two codes denote.  What is neither a move, nor gone, nor new is read again. -/
def xyClass (x y : Code) : ChangeClass :=
  if IsMove x y then .renamed
  else if x = .deleted ∨ y = .deleted then .deleted
  else if x = .added then .added
  else .modified

/-- The pairs of codes of unmerged paths. -/
def unmergedCodes : List (Code × Code) :=
  [(.deleted, .deleted), (.added, .unmerged), (.unmerged, .deleted), (.unmerged, .added),
    (.deleted, .unmerged), (.added, .added), (.unmerged, .unmerged)]

namespace Record

/-- The path of a record, the new one of two. -/
def path : Record → Str
  | ordinary _ _ _ path | renamed _ _ _ path _ | untracked path | unmerged _ _ _ path => path

/-- The move of a record: of no other one than a rename or a copy are there two paths. -/
def move : Record → Renamed
  | renamed _ _ _ path origPath => ⟨origPath, path⟩
  | ordinary _ _ _ path | untracked path | unmerged _ _ _ path => ⟨path, path⟩

/-- The codes belong to the kind of the record. -/
def Coded : Record → Prop
  | ordinary x y _ _ => ¬ IsMove x y
  | renamed x y _ _ _ => IsMove x y
  | untracked _ => True
  | unmerged x y _ _ => (x, y) ∈ unmergedCodes

instance : DecidablePred Coded
  | ordinary .. => inferInstanceAs (Decidable (¬ _))
  | renamed x y .. => inferInstanceAs (Decidable (IsMove x y))
  | untracked _ => .isTrue trivial
  | unmerged x y .. => inferInstanceAs (Decidable ((x, y) ∈ unmergedCodes))

/-- A record as git prints it, with paths that it does not quote. -/
structure WellFormed (r : Record) : Prop where
  /-- The codes. -/
  coded : r.Coded
  /-- The paths. -/
  bare : r.Bare

/-- The class of a record. -/
def changeClass : Record → ChangeClass
  | ordinary x y _ _ | renamed x y _ _ _ => xyClass x y
  | untracked _ => .added
  | unmerged _ _ _ _ => .modified

end Record

/-- Put a record in a class. -/
def ChangeSet.place (changes : ChangeSet) (r : Record) : ChangeClass → ChangeSet
  | .added => { changes with added := changes.added ++ [r.path] }
  | .modified => { changes with modified := changes.modified ++ [r.path] }
  | .deleted => { changes with deleted := changes.deleted ++ [r.path] }
  | .renamed => { changes with renamed := changes.renamed ++ [r.move] }

theorem add_bareChange (changes : ChangeSet) {r : Record} (h : r.Coded) :
    changes.add r.bareChange = changes.place r r.changeClass := by
  cases r with
  | ordinary x y fields path =>
    have hmove : ¬ IsMove x y := h
    rw [Record.changeClass, xyClass, if_neg hmove, Record.bareChange]
    split_ifs <;> rfl
  | renamed x y fields path origPath =>
    have hmove : IsMove x y := h
    rw [Record.changeClass, xyClass, if_pos hmove]
    rfl
  | untracked path => rfl
  | unmerged x y fields path => rfl

/-- The records of a class. -/
def ofClass (rs : List Record) (cls : ChangeClass) : List Record :=
  rs.filter fun r => r.changeClass = cls

theorem foldl_place (rs : List Record) :
    rs.foldl (fun (changes : ChangeSet) r => changes.place r r.changeClass) ⟨[], [], [], []⟩ =
      ⟨(ofClass rs .added).map Record.path, (ofClass rs .modified).map Record.path,
        (ofClass rs .deleted).map Record.path, (ofClass rs .renamed).map Record.move⟩ := by
  induction rs using List.reverseRecOn with
  | nil => rfl
  | append_singleton rs r ih =>
    rw [List.foldl_concat, ih]
    simp only [ofClass, List.filter_append]
    cases hcls : r.changeClass <;> simp [hcls, ChangeSet.place]

theorem sublist_modified (rs : List Record) :
    ((rs.filterMap Record.bareConflict).map Conflict.path).Sublist
      ((ofClass rs .modified).map Record.path) := by
  induction rs with
  | nil => exact List.Sublist.slnil
  | cons r rs ih =>
    have hother : r.bareConflict = none →
        (((r :: rs).filterMap Record.bareConflict).map Conflict.path).Sublist
          ((ofClass (r :: rs) .modified).map Record.path) := fun hnone => by
      rw [List.filterMap_cons_none hnone]
      exact ih.trans ((List.sublist_cons_self r rs).filter _ |>.map _)
    cases r with
    | ordinary x y fields path => exact hother rfl
    | renamed x y fields path origPath => exact hother rfl
    | untracked path => exact hother rfl
    | unmerged x y fields path => exact ih.cons_cons path

/-- **The status is read completely**: every record is in the class that its codes denote, with its
whole path, and nothing else is in any class; the conflicts are the unmerged records, and they are among
what is modified. -/
theorem parse_printBareStatus {rs : List Record} (h : ∀ r ∈ rs, r.WellFormed) :
    parsePorcelainV2 (printBareStatus rs) =
        ⟨(ofClass rs .added).map Record.path, (ofClass rs .modified).map Record.path,
          (ofClass rs .deleted).map Record.path, (ofClass rs .renamed).map Record.move⟩ ∧
      parseConflicts (printBareStatus rs) = rs.filterMap Record.bareConflict ∧
      ((parseConflicts (printBareStatus rs)).map Conflict.path).Sublist
        (parsePorcelainV2 (printBareStatus rs)).modified := by
  have hbare : ∀ r ∈ rs, r.Bare := fun r hr => (h r hr).bare
  have hchanges : parsePorcelainV2 (printBareStatus rs) =
      ⟨(ofClass rs .added).map Record.path, (ofClass rs .modified).map Record.path,
        (ofClass rs .deleted).map Record.path, (ofClass rs .renamed).map Record.move⟩ := by
    rw [parsePorcelainV2_printBareStatus hbare, List.foldl_map, ← foldl_place]
    exact List.foldl_ext _ _ _ fun changes r hr => add_bareChange changes (h r hr).coded
  refine ⟨hchanges, parseConflicts_printBareStatus hbare, ?_⟩
  rw [hchanges, parseConflicts_printBareStatus hbare]
  exact sublist_modified rs

/-- A field. -/
def exampleWord : Word := ⟨['N'], by simp⟩

/-- A modified file, a moved one, a new one and a conflict, with blanks in their paths. -/
def exampleRecords : List Record :=
  [.ordinary .unmodified .modified (.replicate 6 exampleWord) "notes/a b.md".toList,
    .renamed .renamed .unmodified (.replicate 7 exampleWord) "c d.md".toList "c.md".toList,
    .untracked "e f.md".toList,
    .unmerged .deleted .unmerged (.replicate 8 exampleWord) "g h.md".toList]

theorem parse_printBareStatus_exampleRecords :
    parsePorcelainV2 (printBareStatus exampleRecords) =
        ⟨["e f.md".toList], ["notes/a b.md".toList, "g h.md".toList], [],
          [⟨"c.md".toList, "c d.md".toList⟩]⟩ ∧
      parseConflicts (printBareStatus exampleRecords) =
        [⟨"g h.md".toList, .modifyDelete .ours⟩] := by
  have hformed : ∀ r ∈ exampleRecords, r.WellFormed := by
    simp only [exampleRecords, List.forall_mem_cons]
    exact ⟨⟨by decide, by decide⟩, ⟨by decide, by decide⟩, ⟨trivial, by decide⟩,
      ⟨by decide, by decide⟩, fun _ h => absurd h List.not_mem_nil⟩
  have hparse := parse_printBareStatus hformed
  exact ⟨hparse.1, hparse.2.1⟩

end Git

end Wkp
