import Wkp.Lib.Utf8
import Mathlib.Data.List.DropRight

/-!
# Trailers of commits

What a commit says of its author stands in the last paragraph of its message.

* `Git.trailers`, `Git.TrailerBlocks` : the trailers of a paragraph, and the paragraphs that hold some.
* `Git.interpretTrailers`, `Git.parseTrailers` : what git does with a message.
* `Git.parseTrailers_interpretTrailers` : what is appended is read after what there was.
* `Git.Provenance.formatMessage`, `Git.readProvenanceTrailers` : the writer and the reader.
* `Git.readProvenanceTrailers_iff` : **when a commit reads as it was written.**
-/

namespace Wkp

open Rust

namespace Git

/-! ### Trailers -/

/-- What git takes for whitespace. -/
def isSpace (c : Char) : Bool := c = ' ' ∨ c = '\t' ∨ c = '\n' ∨ c = '\r'

/-- A character of a key. -/
def isTokenChar (c : Char) : Bool := c.isAlphanum ∨ c = '-'

/-- `strbuf_trim`. -/
def trimSpace (s : Str) : Str := (s.dropWhile isSpace).rdropWhile isSpace

/-- The key and the value of a line, if it is a trailer. -/
def trailerOf (l : Str) : Option (Str × Str) :=
  let key := l.takeWhile isTokenChar
  match (l.dropWhile isTokenChar).dropWhile fun c => c = ' ' ∨ c = '\t' with
  | ':' :: value => if key = [] then none else some (key, value)
  | _ => none

/-- The line goes on with the one before it. -/
def isContinuation (l : Str) : Bool := l.head?.any isSpace

/-- The trailers of some lines, unfolded, after a trailer that may go on. -/
def trailersFrom : Option (Str × Str) → List Str → List (Str × Str)
  | cur, [] => (cur.map fun t => (t.1, trimSpace t.2)).toList
  | cur, l :: ls =>
    if isContinuation l then
      trailersFrom (cur.map fun t => (t.1, t.2 ++ ' ' :: l.dropWhile isSpace)) ls
    else (cur.map fun t => (t.1, trimSpace t.2)).toList ++ trailersFrom (trailerOf l) ls

/-- The trailers of a paragraph. -/
def trailers (ls : List Str) : List (Str × Str) := trailersFrom none ls

/-- Which paragraphs are trailer blocks, apart from the title: those that are nothing else, and what git
is configured to see as such. -/
structure TrailerBlocks where
  /-- The paragraph is a block. -/
  isBlock : List Str → Bool
  /-- Some trailers are a block. -/
  all : ∀ ls, ls ≠ [] → (∀ l ∈ ls, (trailerOf l).isSome) → isBlock ls = true
  /-- A block with one trailer more is a block. -/
  concat : ∀ ls l, isBlock ls = true → (trailerOf l).isSome → isBlock (ls ++ [l]) = true

/-! ### Messages -/

/-- A blank line. -/
def isBlank (l : Str) : Bool := l.all isSpace

/-- The lines before the last paragraph. -/
def linesBefore (ls : List Str) : List Str := (ls.rdropWhile isBlank).rdropWhile fun l => ¬ isBlank l

/-- The last paragraph. -/
def lastParagraph (ls : List Str) : List Str := (ls.rdropWhile isBlank).rtakeWhile fun l => ¬ isBlank l

variable (B : TrailerBlocks)

/-- The message ends with a trailer block: a paragraph after a blank line. -/
def hasBlock (ls : List Str) : Bool := linesBefore ls ≠ [] ∧ B.isBlock (lastParagraph ls)

/-- Lines as a text. -/
def unlines (ls : List Str) : Str := ls.flatMap (· ++ ['\n'])

/-- `git interpret-trailers`, with arguments `--trailer key=value`. -/
def interpretTrailers (args : List (Str × Str)) (message : Str) : Str :=
  let ls := message.rows '\n'
  unlines (linesBefore ls ++ lastParagraph ls ++ (if hasBlock B ls then [] else [[]]) ++
    args.flatMap (fun t => (t.1 ++ ':' :: ' ' :: trimSpace t.2).rows '\n') ++ ls.rtakeWhile isBlank)

/-- `git interpret-trailers --parse`. -/
def parseTrailers (message : Str) : List (Str × Str) :=
  let ls := message.rows '\n'
  if hasBlock B ls then trailers (lastParagraph ls) else []

/-- What it prints. -/
def printTrailers (ts : List (Str × Str)) : Str := unlines (ts.map fun t => t.1 ++ ':' :: ' ' :: t.2)

/-- `git commit-tree -m message`, and `git log -1 --format=%B` of it. -/
def logBody (message : Str) : Str :=
  (if message = [] ∨ message.getLast? = some '\n' then message else message ++ ['\n']) ++ ['\n']

/-! ### The writer and the reader -/

/-- `TRAILER_ACTOR`. -/
def trailerActor : Str := "Wkp-Actor".toList

/-- `TRAILER_SESSION`. -/
def trailerSession : Str := "Wkp-Session".toList

/-- `TRAILER_SOURCE`. -/
def trailerSource : Str := "Wkp-Source".toList

/-- `TRAILER_CONFIDENCE`. -/
def trailerConfidence : Str := "Wkp-Confidence".toList

/-- `Provenance`. -/
@[ext] structure Provenance where
  /-- The principal. -/
  actor : Option Str := none
  /-- The session. -/
  session : Option Str := none
  /-- The source. -/
  source : Option Str := none
  /-- The confidence. -/
  confidence : Option Str := none
  deriving DecidableEq

namespace Provenance

/-- `pairs`. -/
def pairs (p : Provenance) : List (Str × Str) :=
  (p.actor.map fun v => (trailerActor, v)).toList ++
    (p.session.map fun v => (trailerSession, v)).toList ++
    (p.source.map fun v => (trailerSource, v)).toList ++
    (p.confidence.map fun v => (trailerConfidence, v)).toList

/-- `format_message`. -/
def formatMessage (p : Provenance) (subject : Str) : Str :=
  if p.pairs = [] then subject else interpretTrailers B p.pairs subject

/-- Set the field of a key, if it has one. -/
def put (p : Provenance) (key value : Str) : Provenance :=
  if key = trailerActor then { p with actor := some value }
  else if key = trailerSession then { p with session := some value }
  else if key = trailerSource then { p with source := some value }
  else if key = trailerConfidence then { p with confidence := some value }
  else p

/-- A line of the trailers that are read. -/
def readLine (p : Provenance) (line : Str) : Provenance :=
  match splitOnce ':' line with
  | none => p
  | some (key, value) => p.put (trim key) (trim value)

end Provenance

/-- `read_provenance_trailers`, of the message that `git log` prints. -/
def readProvenanceTrailers (body : Str) : Option Provenance :=
  let p := (lines (printTrailers (parseTrailers B body))).foldl Provenance.readLine {}
  if p = {} then none else some p

/-! ### Characters -/

theorem isWhitespace_of_isSpace {c : Char} (h : isSpace c = true) : isWhitespace c = true := by
  simp only [isSpace, decide_eq_true_eq] at h
  rcases h with rfl | rfl | rfl | rfl <;> decide

theorem isWhitespace_of_isTokenChar {c : Char} (h : isTokenChar c = true) :
    isWhitespace c = false := by
  simp only [isTokenChar, decide_eq_true_eq] at h
  rcases h with h | rfl
  · by_contra hws
    rw [isAlphanum_of_isWhitespace (by simpa using hws)] at h
    cases h
  · decide

theorem trim_trimSpace (s : Str) : trim (trimSpace s) = trim s := by
  have hfront : ∀ c ∈ s.takeWhile isSpace, isWhitespace c = true := fun c hc =>
    isWhitespace_of_isSpace (List.mem_takeWhile_imp hc)
  have hback : ∀ c ∈ (s.dropWhile isSpace).rtakeWhile isSpace, isWhitespace c = true := fun c hc =>
    isWhitespace_of_isSpace (List.mem_rtakeWhile_imp hc)
  have hdrop : s.dropWhile isSpace =
      trimSpace s ++ (s.dropWhile isSpace).rtakeWhile isSpace :=
    List.rdropWhile_append_rtakeWhile.symm
  calc trim (trimSpace s)
      = trim (trimSpace s ++ (s.dropWhile isSpace).rtakeWhile isSpace) :=
        (trim_append_of_all hback).symm
    _ = trim (s.dropWhile isSpace) := by rw [← hdrop]
    _ = trim (s.takeWhile isSpace ++ s.dropWhile isSpace) := by
        rw [trim, trim, trimStart_append_of_all hfront]
    _ = trim s := by rw [List.takeWhile_append_dropWhile]

theorem trimSpace_isInfix (s : Str) : trimSpace s <:+: s :=
  (List.rdropWhile_prefix isSpace _).isInfix.trans (List.dropWhile_suffix _).isInfix

/-! ### Trailers of a paragraph -/

theorem trailerOf_append {key : Str} (hne : key ≠ []) (hkey : ∀ c ∈ key, isTokenChar c = true)
    (value : Str) : trailerOf (key ++ ':' :: value) = some (key, value) := by
  have hcolon : isTokenChar ':' = false := by decide
  rw [trailerOf, List.takeWhile_append_of_pos hkey, List.dropWhile_append_of_pos hkey]
  simp [hcolon, hne]

/-- The parts of a trailer. -/
structure IsTrailer (t : Str × Str) : Prop where
  /-- The key. -/
  key : ∀ c ∈ t.1, isTokenChar c = true
  /-- The value. -/
  value : '\n' ∉ t.2

theorem isTrailer_of_trailerOf {l : Str} (hl : '\n' ∉ l) {t : Str × Str} (h : trailerOf l = some t) :
    IsTrailer t := by
  rw [trailerOf] at h
  split at h
  case h_1 value hrest =>
    split_ifs at h with hkey
    obtain rfl := Option.some.inj h
    refine ⟨fun c hc => List.mem_takeWhile_imp hc, fun hmem => hl ?_⟩
    have hsuffix : ':' :: value <:+ l :=
      hrest ▸ (List.dropWhile_suffix _).trans (List.dropWhile_suffix _)
    exact hsuffix.subset (List.mem_cons_of_mem _ hmem)
  case h_2 => cases h

theorem isTrailer_of_mem_trailersFrom {cur : Option (Str × Str)} (hcur : ∀ t ∈ cur, IsTrailer t)
    {ls : List Str} (hls : ∀ l ∈ ls, '\n' ∉ l) {t : Str × Str} (ht : t ∈ trailersFrom cur ls) :
    IsTrailer t := by
  have hflush : ∀ cur : Option (Str × Str), (∀ t ∈ cur, IsTrailer t) →
      t ∈ (cur.map fun t => (t.1, trimSpace t.2)).toList → IsTrailer t := by
    intro cur hcur ht
    obtain ⟨t', ht', rfl⟩ := Option.map_eq_some_iff.1 (Option.mem_toList.1 ht)
    exact ⟨(hcur t' ht').key, fun hmem => (hcur t' ht').value ((trimSpace_isInfix _).subset hmem)⟩
  induction ls generalizing cur with
  | nil => exact hflush cur hcur ht
  | cons l ls ih =>
    have hl := hls l List.mem_cons_self
    have hrest : ∀ l ∈ ls, '\n' ∉ l := fun l hl => hls l (List.mem_cons_of_mem _ hl)
    rw [trailersFrom] at ht
    split_ifs at ht with hcont
    · refine ih (fun t ht => ?_) hrest ht
      obtain ⟨t', ht', rfl⟩ := Option.map_eq_some_iff.1 ht
      refine ⟨(hcur t' ht').key, ?_⟩
      simp only [List.mem_append, List.mem_cons, not_or]
      exact ⟨(hcur t' ht').value, by decide, fun hmem => hl ((List.dropWhile_suffix _).subset hmem)⟩
    · rcases List.mem_append.1 ht with ht | ht
      · exact hflush cur hcur ht
      · exact ih (fun t ht => isTrailer_of_trailerOf hl ht) hrest ht

/-- Lines that go on with nothing leave the trailers before them alone. -/
theorem trailersFrom_append (cur : Option (Str × Str)) (ls : List Str) {l : Str} (ls' : List Str)
    (hl : isContinuation l = false) :
    trailersFrom cur (ls ++ l :: ls') = trailersFrom cur ls ++ trailers (l :: ls') := by
  have hl' : ¬ isContinuation l = true := by simp [hl]
  induction ls generalizing cur with
  | nil =>
    rw [List.nil_append, trailers, trailersFrom, trailersFrom, trailersFrom, if_neg hl', if_neg hl']
    rfl
  | cons l₀ ls ih =>
    rw [List.cons_append, trailersFrom, trailersFrom]
    split_ifs
    · exact ih _
    · rw [ih, List.append_assoc]

/-- The line of a trailer. -/
def trailerLine (t : Str × Str) : Str := t.1 ++ ':' :: ' ' :: trimSpace t.2

/-- A key that is one. -/
def IsKey (key : Str) : Prop := key ≠ [] ∧ ∀ c ∈ key, isTokenChar c = true

theorem isContinuation_trailerLine {t : Str × Str} (h : IsKey t.1) :
    isContinuation (trailerLine t) = false := by
  obtain ⟨c, key, hkey⟩ := List.exists_cons_of_ne_nil h.1
  have hc : isTokenChar c = true := h.2 c (hkey ▸ List.mem_cons_self)
  have hspace : isSpace c = false := by
    by_contra hspace
    have hws := isWhitespace_of_isSpace (by simpa using hspace)
    rw [isWhitespace_of_isTokenChar hc] at hws
    cases hws
  rw [isContinuation, trailerLine, hkey]
  exact hspace

theorem trailers_map_trailerLine {ts : List (Str × Str)} (h : ∀ t ∈ ts, IsKey t.1) :
    trailers (ts.map trailerLine) = ts.map fun t => (t.1, trimSpace (' ' :: trimSpace t.2)) := by
  have hfrom : ∀ cur, trailersFrom cur (ts.map trailerLine) =
      (cur.map fun t => (t.1, trimSpace t.2)).toList ++
        ts.map fun t => (t.1, trimSpace (' ' :: trimSpace t.2)) := by
    induction ts with
    | nil => exact fun cur => (List.append_nil _).symm
    | cons t ts ih =>
      intro cur
      have ht := h t List.mem_cons_self
      have hcont : ¬ isContinuation (trailerLine t) = true := by simp [isContinuation_trailerLine ht]
      rw [List.map_cons, trailersFrom, if_neg hcont, trailerLine, trailerOf_append ht.1 ht.2,
        ih fun t ht => h t (List.mem_cons_of_mem _ ht)]
      rfl
  exact hfrom none

/-! ### The last paragraph -/

/-- How a message ends: a paragraph after a blank line or at the start, and blank lines. -/
structure EndsWith (lead para trail ls : List Str) : Prop where
  /-- The lines. -/
  eq : ls = lead ++ para ++ trail
  /-- What is before the paragraph ends with a blank line. -/
  leadBlank : ∀ hne : lead ≠ [], isBlank (lead.getLast hne) = true
  /-- No line of the paragraph is blank. -/
  paraFilled : ∀ l ∈ para, isBlank l = false
  /-- There is one if there is something before it. -/
  paraNe : lead ≠ [] → para ≠ []
  /-- What is after it is blank. -/
  trailBlank : ∀ l ∈ trail, isBlank l = true

theorem rdropWhile_append_of_forall {α : Type*} {p : α → Bool} {m : List α}
    (h : ∀ a ∈ m, p a = true) (l : List α) : (l ++ m).rdropWhile p = l.rdropWhile p := by
  rw [List.rdropWhile, List.reverse_append, List.dropWhile_append_of_pos (by simpa using h),
    ← List.rdropWhile]

theorem endsWith (ls : List Str) :
    EndsWith (linesBefore ls) (lastParagraph ls) (ls.rtakeWhile isBlank) ls where
  eq := by
    rw [linesBefore, lastParagraph, List.rdropWhile_append_rtakeWhile,
      List.rdropWhile_append_rtakeWhile]
  leadBlank hne := by
    have hlast : ¬ decide (¬ isBlank ((linesBefore ls).getLast hne) = true) = true :=
      List.rdropWhile_last_not _ _ hne
    simpa using hlast
  paraFilled l hl := by simpa using List.mem_rtakeWhile_imp hl
  paraNe hne hpara := by
    have hfilled : ls.rdropWhile isBlank ≠ [] := fun hnil => hne (by rw [linesBefore, hnil]; rfl)
    have hlast := List.rdropWhile_last_not _ _ hfilled
    exact List.rtakeWhile_eq_nil_iff.1 hpara hfilled (by simpa using hlast)
  trailBlank l hl := List.mem_rtakeWhile_imp hl

theorem EndsWith.eqs {lead para trail ls : List Str} (h : EndsWith lead para trail ls) :
    linesBefore ls = lead ∧ lastParagraph ls = para := by
  have hfilled : ls.rdropWhile isBlank = lead ++ para := by
    rw [h.eq, rdropWhile_append_of_forall h.trailBlank, List.rdropWhile_eq_self_iff]
    intro hne hblank
    have hpara : para ≠ [] := fun hnil => by
      have hlead : lead ≠ [] := fun hlead => hne (by rw [hlead, hnil]; rfl)
      exact h.paraNe hlead hnil
    rw [List.getLast_append_of_ne_nil _ hpara, h.paraFilled _ (List.getLast_mem hpara)] at hblank
    cases hblank
  have hlead : linesBefore ls = lead := by
    rw [linesBefore, hfilled, rdropWhile_append_of_forall (by simpa using h.paraFilled),
      List.rdropWhile_eq_self_iff]
    intro hne
    simp [h.leadBlank hne]
  refine ⟨hlead, ?_⟩
  have happend := (endsWith ls).eq
  have htrail : linesBefore ls ++ lastParagraph ls = lead ++ para := by
    rw [← hfilled, linesBefore, lastParagraph, List.rdropWhile_append_rtakeWhile]
  rw [hlead] at htrail
  exact List.append_cancel_left htrail

/-! ### Lines of a text -/

theorem rows_unlines_append {ls : List Str} (h : ∀ l ∈ ls, '\n' ∉ l) (s : Str) :
    (unlines ls ++ s).rows '\n' = ls ++ s.rows '\n' := by
  induction ls with
  | nil => rfl
  | cons l ls ih =>
    have hl := h l List.mem_cons_self
    have hline : (l ++ ['\n']).rows '\n' = [l] := by
      cases l with
      | nil => rfl
      | cons c l =>
        rw [List.rows_append_of_notMem hl (List.cons_ne_nil c l), List.rows_sep_cons, List.rows_nil,
          List.extendFirst, List.append_nil]
    rw [unlines, List.flatMap_cons, ← unlines, List.append_assoc, List.append_assoc,
      List.singleton_append, List.rows_append_sep_cons, hline,
      ih fun l hl => h l (List.mem_cons_of_mem _ hl)]
    rfl

theorem rows_unlines {ls : List Str} (h : ∀ l ∈ ls, '\n' ∉ l) : (unlines ls).rows '\n' = ls := by
  have hrows := rows_unlines_append h []
  rwa [List.append_nil, List.rows_nil, List.append_nil] at hrows

theorem lf_notMem_of_mem_rows {s l : Str} (h : l ∈ s.rows '\n') : '\n' ∉ l := by
  induction s generalizing l with
  | nil => cases h
  | cons c s ih =>
    rw [List.rows] at h
    split_ifs at h with hc
    · rcases List.mem_cons.1 h with rfl | h
      · exact List.not_mem_nil
      · exact ih h
    · cases hrows : s.rows '\n' with
      | nil =>
        rw [hrows] at h
        obtain rfl := List.mem_singleton.1 h
        simpa using Ne.symm hc
      | cons r rs =>
        rw [hrows] at h
        rcases List.mem_cons.1 h with rfl | h
        · have hr : '\n' ∉ r := ih (hrows ▸ List.mem_cons_self)
          simp [hr, Ne.symm hc]
        · exact ih (hrows ▸ List.mem_cons_of_mem _ h)

theorem rows_append_lf {s : Str} (hne : s ≠ []) (hs : s.getLast? ≠ some '\n') :
    (s ++ ['\n']).rows '\n' = s.rows '\n' := by
  induction s with
  | nil => exact absurd rfl hne
  | cons c s ih =>
    cases s with
    | nil =>
      have hc : c ≠ '\n' := fun heq => hs (by rw [heq]; rfl)
      rw [List.singleton_append, List.rows_cons_of_ne hc, List.rows_cons_of_ne hc]
      rfl
    | cons d s =>
      have hrest := ih (List.cons_ne_nil d s) (by rwa [List.getLast?_cons_cons] at hs)
      rw [List.cons_append, List.rows, List.rows, hrest]

theorem rows_logBody (message : Str) : (logBody message).rows '\n' = message.rows '\n' ++ [[]] := by
  rw [logBody]
  split_ifs with hended
  · have hmessage : message.Ended '\n' := by
      rcases hended with hnil | hlast
      · exact .inl hnil
      · obtain ⟨s, hs⟩ := List.getLast?_eq_some_iff.1 hlast
        exact .inr ⟨s, hs⟩
    exact hmessage.rows_append ['\n']
  · rw [not_or] at hended
    have hmessage : (message ++ ['\n']).Ended '\n' := .inr ⟨message, rfl⟩
    rw [hmessage.rows_append, rows_append_lf hended.1 hended.2]
    rfl

/-! ### Messages that are read -/

variable {B}

theorem isBlank_nil : isBlank [] = true := rfl

theorem parseTrailers_of_endsWith {lead para trail : List Str} {message : Str}
    (h : EndsWith lead para trail (message.rows '\n')) : parseTrailers B message =
      if lead ≠ [] ∧ B.isBlock para = true then trailers para else [] := by
  rw [parseTrailers, hasBlock, h.eqs.1, h.eqs.2]
  simp only [Bool.decide_and, Bool.decide_eq_true, Bool.and_eq_true, decide_eq_true_eq]

/-- A blank line more at the end makes no difference. -/
theorem parseTrailers_logBody (message : Str) :
    parseTrailers B (logBody message) = parseTrailers B message := by
  have hends := endsWith (message.rows '\n')
  have hblank : ∀ l ∈ (message.rows '\n').rtakeWhile isBlank ++ [[]], isBlank l = true := by
    intro l hl
    rcases List.mem_append.1 hl with hl | hl
    · exact hends.trailBlank l hl
    · exact List.mem_singleton.1 hl ▸ isBlank_nil
  have hbody : EndsWith (linesBefore (message.rows '\n')) (lastParagraph (message.rows '\n'))
      ((message.rows '\n').rtakeWhile isBlank ++ [[]]) ((logBody message).rows '\n') :=
    ⟨by rw [rows_logBody, ← List.append_assoc, ← hends.eq], hends.leadBlank, hends.paraFilled,
      hends.paraNe, hblank⟩
  rw [parseTrailers_of_endsWith hbody, parseTrailers_of_endsWith hends]

/-- Arguments that git can print as one line each. -/
def Plain (ts : List (Str × Str)) : Prop := ∀ t ∈ ts, IsKey t.1 ∧ '\n' ∉ t.2

theorem isSome_trailerOf_trailerLine {t : Str × Str} (h : IsKey t.1) :
    (trailerOf (trailerLine t)).isSome := by
  rw [trailerLine, trailerOf_append h.1 h.2]
  rfl

theorem isBlock_append {ls : List Str} (hls : B.isBlock ls = true) {ts : List (Str × Str)}
    (h : ∀ t ∈ ts, IsKey t.1) : B.isBlock (ls ++ ts.map trailerLine) = true := by
  induction ts using List.reverseRecOn with
  | nil => rwa [List.map_nil, List.append_nil]
  | append_singleton ts t ih =>
    rw [List.map_append, ← List.append_assoc, List.map_singleton]
    exact B.concat _ _ (ih fun t ht => h t (List.mem_append_left _ ht))
      (isSome_trailerOf_trailerLine (h t (by simp)))

theorem isBlank_trailerLine {t : Str × Str} (h : IsKey t.1) : isBlank (trailerLine t) = false := by
  obtain ⟨c, key, hkey⟩ := List.exists_cons_of_ne_nil h.1
  have hcont := isContinuation_trailerLine h
  rw [isContinuation, trailerLine, hkey] at hcont
  have hc : isSpace c = false := hcont
  simp [isBlank, trailerLine, hkey, hc]

theorem lf_notMem_trailerLine {t : Str × Str} (h : IsKey t.1) (hlf : '\n' ∉ t.2) :
    '\n' ∉ trailerLine t := by
  simp only [trailerLine, List.mem_append, List.mem_cons, not_or]
  refine ⟨fun hmem => ?_, by decide, by decide, fun hmem => hlf ((trimSpace_isInfix _).subset hmem)⟩
  exact absurd (h.2 _ hmem) (by decide)

theorem rows_trailerLine {t : Str × Str} (h : IsKey t.1) (hlf : '\n' ∉ t.2) :
    (trailerLine t).rows '\n' = [trailerLine t] := by
  have hne : trailerLine t ≠ [] := by simp [trailerLine]
  have hrows := List.rows_append_of_notMem (lf_notMem_trailerLine h hlf) hne []
  rwa [List.append_nil] at hrows

theorem trailers_append {ls : List Str} {ts : List (Str × Str)} (h : ∀ t ∈ ts, IsKey t.1) :
    trailers (ls ++ ts.map trailerLine) =
      trailers ls ++ ts.map fun t => (t.1, trimSpace (' ' :: trimSpace t.2)) := by
  cases ts with
  | nil => rw [List.map_nil, List.append_nil, List.map_nil, List.append_nil]
  | cons t ts =>
    have hcont := isContinuation_trailerLine (h t List.mem_cons_self)
    rw [← trailers_map_trailerLine h, List.map_cons, trailers, trailersFrom_append _ _ _ hcont]
    rfl

/-- **What is appended is read after what there was.** -/
theorem parseTrailers_interpretTrailers {ts : List (Str × Str)} (h : Plain ts) (hne : ts ≠ [])
    (message : Str) : parseTrailers B (interpretTrailers B ts message) =
      parseTrailers B message ++ ts.map fun t => (t.1, trimSpace (' ' :: trimSpace t.2)) := by
  have hkey : ∀ t ∈ ts, IsKey t.1 := fun t ht => (h t ht).1
  have hends := endsWith (message.rows '\n')
  have hargs : ts.flatMap (fun t => (t.1 ++ ':' :: ' ' :: trimSpace t.2).rows '\n') =
      ts.map trailerLine := by
    rw [← List.flatMap_singleton' (ts.map trailerLine), List.flatMap_map]
    exact List.flatMap_congr fun t ht => rows_trailerLine (h t ht).1 (h t ht).2
  have hnew : ∀ l ∈ ts.map trailerLine, '\n' ∉ l ∧ isBlank l = false :=
    List.forall_mem_map.2 fun t ht =>
      ⟨lf_notMem_trailerLine (h t ht).1 (h t ht).2, isBlank_trailerLine (h t ht).1⟩
  have hold : ∀ l ∈ linesBefore (message.rows '\n') ++ lastParagraph (message.rows '\n') ++
      (message.rows '\n').rtakeWhile isBlank, '\n' ∉ l := by
    rw [← hends.eq]
    exact fun l hl => lf_notMem_of_mem_rows hl
  have hnewne : ts.map trailerLine ≠ [] := fun hnil => hne (List.map_eq_nil_iff.1 hnil)
  have hrows : (interpretTrailers B ts message).rows '\n' = linesBefore (message.rows '\n') ++
      lastParagraph (message.rows '\n') ++
        (if hasBlock B (message.rows '\n') then [] else [[]]) ++ ts.map trailerLine ++
          (message.rows '\n').rtakeWhile isBlank := by
    rw [interpretTrailers, hargs]
    refine rows_unlines fun l hl => ?_
    rcases List.mem_append.1 hl with hl | hl
    · rcases List.mem_append.1 hl with hl | hl
      · rcases List.mem_append.1 hl with hl | hl
        · exact hold l (List.mem_append_left _ hl)
        · split_ifs at hl
          · cases hl
          · exact List.mem_singleton.1 hl ▸ List.not_mem_nil
      · exact (hnew l hl).1
    · exact hold l (List.mem_append_right _ hl)
  rw [parseTrailers_of_endsWith hends]
  by_cases hblock : linesBefore (message.rows '\n') ≠ [] ∧
      B.isBlock (lastParagraph (message.rows '\n')) = true
  · -- the last paragraph goes on
    have hhas : hasBlock B (message.rows '\n') = true := decide_eq_true hblock
    rw [if_pos hhas, List.append_nil, List.append_assoc (linesBefore _)] at hrows
    have hnewends : EndsWith (linesBefore (message.rows '\n'))
        (lastParagraph (message.rows '\n') ++ ts.map trailerLine)
        ((message.rows '\n').rtakeWhile isBlank) ((interpretTrailers B ts message).rows '\n') := by
      refine ⟨hrows, hends.leadBlank, fun l hl => ?_, fun _ hnil => ?_, hends.trailBlank⟩
      · exact (List.mem_append.1 hl).elim (hends.paraFilled l) fun hl => (hnew l hl).2
      · exact hnewne (List.append_eq_nil_iff.1 hnil).2
    rw [parseTrailers_of_endsWith hnewends, if_pos ⟨hblock.1, isBlock_append hblock.2 hkey⟩,
      if_pos hblock, trailers_append hkey]
  · -- a new paragraph
    have hhas : ¬ hasBlock B (message.rows '\n') = true := fun hhas => hblock (of_decide_eq_true hhas)
    rw [if_neg hhas] at hrows
    have hnewends : EndsWith (linesBefore (message.rows '\n') ++
        lastParagraph (message.rows '\n') ++ [[]]) (ts.map trailerLine)
        ((message.rows '\n').rtakeWhile isBlank) ((interpretTrailers B ts message).rows '\n') := by
      refine ⟨hrows, fun hne => ?_, fun l hl => (hnew l hl).2, fun _ => hnewne, hends.trailBlank⟩
      rw [List.getLast_append_of_ne_nil _ (List.cons_ne_nil _ _)]
      rfl
    have hall : B.isBlock (ts.map trailerLine) = true :=
      B.all _ hnewne (List.forall_mem_map.2 fun t ht => isSome_trailerOf_trailerLine (hkey t ht))
    rw [parseTrailers_of_endsWith hnewends, if_pos ⟨by simp, hall⟩, if_neg hblock,
      ← trailers_map_trailerLine hkey, List.nil_append]

/-! ### Fields that are read -/

theorem IsTrailer.trim_key {t : Str × Str} (h : IsTrailer t) : trim t.1 = t.1 :=
  trim_eq_self ⟨fun c hc => isWhitespace_of_isTokenChar (h.key c (List.mem_of_head? hc)),
    fun c hc => isWhitespace_of_isTokenChar (h.key c (List.mem_of_getLast? hc))⟩

theorem IsTrailer.colon_notMem {t : Str × Str} (h : IsTrailer t) : ':' ∉ t.1 := fun hmem =>
  absurd (h.key _ hmem) (by decide)

/-- The line of a trailer is read, with a carriage return at its end or without. -/
theorem readLine_strip (p : Provenance) {t : Str × Str} (h : IsTrailer t) :
    p.readLine ((stripSuffix (t.1 ++ ':' :: ' ' :: t.2) ['\r']).getD (t.1 ++ ':' :: ' ' :: t.2)) =
      p.put t.1 (trim t.2) := by
  have hread : ∀ value, p.readLine (t.1 ++ ':' :: value) = p.put t.1 (trim value) := fun value => by
    rw [Provenance.readLine, splitOnce_append h.colon_notMem]
    dsimp only
    rw [h.trim_key]
  cases hstrip : stripSuffix (t.1 ++ ':' :: ' ' :: t.2) ['\r'] with
  | none => rw [Option.getD_none, hread, trim_cons_of_ws (by decide)]
  | some r =>
    have heq := stripSuffix_eq_some_iff.1 hstrip
    rcases List.eq_nil_or_concat t.2 with hnil | ⟨value, c, hvalue⟩
    · rw [hnil] at heq
      have hlast := congrArg List.getLast? heq
      rw [List.getLast?_append_cons, List.getLast?_concat] at hlast
      cases hlast
    · rw [hvalue, List.concat_eq_append, ← List.cons_append, ← List.cons_append, ← List.append_assoc]
        at heq
      obtain ⟨rfl, hc⟩ := List.append_inj' heq rfl
      rw [Option.getD_some, hread, trim_cons_of_ws (by decide), hvalue, List.concat_eq_append, hc,
        trim_concat (by decide)]

theorem foldl_readLine {ts : List (Str × Str)} (h : ∀ t ∈ ts, IsTrailer t) (p : Provenance) :
    (lines (printTrailers ts)).foldl Provenance.readLine p =
      ts.foldl (fun p t => p.put t.1 (trim t.2)) p := by
  have hlf : ∀ l ∈ ts.map fun t => t.1 ++ ':' :: ' ' :: t.2, '\n' ∉ l := by
    refine List.forall_mem_map.2 fun t ht hmem => ?_
    simp only [List.mem_append, List.mem_cons] at hmem
    rcases hmem with hmem | hmem | hmem | hmem
    · exact absurd ((h t ht).key _ hmem) (by decide)
    · exact absurd hmem (by decide)
    · exact absurd hmem (by decide)
    · exact (h t ht).value hmem
  have hsplit := splitInclusive_lines hlf []
  rw [List.append_nil, splitInclusive, List.append_nil] at hsplit
  rw [printTrailers, unlines, lines, hsplit, List.map_map, List.map_map, List.foldl_map]
  refine List.foldl_ext _ _ _ fun p t ht => ?_
  rw [Function.comp_apply, Function.comp_apply, stripLineEnding_lf, readLine_strip p (h t ht)]

/-- The last value of a key. -/
def lastValue (ts : List (Str × Str)) (key : Str) : Option Str :=
  (ts.filter fun t => t.1 = key).getLast?.map fun t => trim t.2

theorem lastValue_append (ts us : List (Str × Str)) (key : Str) :
    lastValue (ts ++ us) key = (lastValue us key).or (lastValue ts key) := by
  rw [lastValue, List.filter_append, List.getLast?_append, Option.map_or]
  rfl

theorem lastValue_eq_none_iff {ts : List (Str × Str)} {key : Str} :
    lastValue ts key = none ↔ ∀ t ∈ ts, t.1 ≠ key := by
  rw [lastValue, Option.map_eq_none_iff, List.getLast?_eq_none_iff, List.filter_eq_nil_iff]
  simp

theorem lastValue_concat (ts : List (Str × Str)) (t : Str × Str) (key : Str) :
    lastValue (ts ++ [t]) key = if t.1 = key then some (trim t.2) else lastValue ts key := by
  rw [lastValue_append]
  by_cases hkey : t.1 = key <;> simp [lastValue, hkey]

theorem keys_ne : (trailerActor ≠ trailerSession ∧ trailerActor ≠ trailerSource ∧
      trailerActor ≠ trailerConfidence) ∧
    (trailerSession ≠ trailerSource ∧ trailerSession ≠ trailerConfidence) ∧
      trailerSource ≠ trailerConfidence := by
  decide

/-- **The last value of a key counts.** -/
theorem foldl_put (ts : List (Str × Str)) :
    ts.foldl (fun (p : Provenance) t => p.put t.1 (trim t.2)) {} =
      ⟨lastValue ts trailerActor, lastValue ts trailerSession, lastValue ts trailerSource,
        lastValue ts trailerConfidence⟩ := by
  induction ts using List.reverseRecOn with
  | nil => rfl
  | append_singleton ts t ih =>
    rw [List.foldl_concat, ih, lastValue_concat, lastValue_concat, lastValue_concat,
      lastValue_concat, Provenance.put]
    obtain ⟨⟨h₁₂, h₁₃, h₁₄⟩, ⟨h₂₃, h₂₄⟩, h₃₄⟩ := keys_ne
    by_cases h₁ : t.1 = trailerActor
    · simp [h₁, h₁₂, h₁₃, h₁₄]
    by_cases h₂ : t.1 = trailerSession
    · simp [h₂, Ne.symm h₁₂, h₂₃, h₂₄]
    by_cases h₃ : t.1 = trailerSource
    · simp [h₃, Ne.symm h₁₃, Ne.symm h₂₃, h₃₄]
    by_cases h₄ : t.1 = trailerConfidence
    · simp [h₄, Ne.symm h₁₄, Ne.symm h₂₄, Ne.symm h₃₄]
    · simp [h₁, h₂, h₃, h₄]

namespace Provenance

/-- The trailers of the fields that are set, as they are read. -/
def tidy (p : Provenance) : List (Str × Str) :=
  p.pairs.map fun t => (t.1, trimSpace (' ' :: trimSpace t.2))

theorem lastValue_tidy (p : Provenance) :
    lastValue p.tidy trailerActor = p.actor.map trim ∧
      lastValue p.tidy trailerSession = p.session.map trim ∧
      lastValue p.tidy trailerSource = p.source.map trim ∧
      lastValue p.tidy trailerConfidence = p.confidence.map trim := by
  have htidy : ∀ v, trim (trimSpace (' ' :: trimSpace v)) = trim v := fun v => by
    rw [trim_trimSpace, trim_cons_of_ws (by decide), trim_trimSpace]
  have hfield : ∀ (field : Option Str) (key key' : Str),
      lastValue ((field.map fun v => (key, v)).toList.map
        fun t => (t.1, trimSpace (' ' :: trimSpace t.2))) key' =
          if key = key' then field.map trim else none := by
    intro field key key'
    cases field with
    | none => simp [lastValue]
    | some v => by_cases hkey : key = key' <;> simp [lastValue, hkey, htidy]
  obtain ⟨⟨h₁₂, h₁₃, h₁₄⟩, ⟨h₂₃, h₂₄⟩, h₃₄⟩ := keys_ne
  simp only [tidy, pairs, List.map_append, lastValue_append, hfield]
  simp [h₁₂, h₁₃, h₁₄, h₂₃, h₂₄, h₃₄, Ne.symm h₁₂, Ne.symm h₁₃, Ne.symm h₁₄, Ne.symm h₂₃,
    Ne.symm h₂₄, Ne.symm h₃₄]

/-- The values can be written: no line break is in them, and no whitespace around them. -/
def Clean (p : Provenance) : Prop := ∀ t ∈ p.pairs, '\n' ∉ t.2 ∧ trim t.2 = t.2

/-- The subject sets a field that the provenance leaves open: it ends with a trailer block that has a
trailer of its key. -/
def Forged (B : TrailerBlocks) (p : Provenance) (subject : Str) : Prop :=
  ∃ t ∈ parseTrailers B subject,
    t.1 ∈ [trailerActor, trailerSession, trailerSource, trailerConfidence] ∧
      t.1 ∉ p.pairs.map Prod.fst

theorem mem_pairs {p : Provenance} {t : Str × Str} : t ∈ p.pairs ↔
    t.1 = trailerActor ∧ p.actor = some t.2 ∨ t.1 = trailerSession ∧ p.session = some t.2 ∨
      t.1 = trailerSource ∧ p.source = some t.2 ∨
        t.1 = trailerConfidence ∧ p.confidence = some t.2 := by
  obtain ⟨key, value⟩ := t
  have hfield : ∀ (field : Option Str) (key' : Str),
      (key, value) ∈ (field.map fun v => (key', v)).toList ↔ key = key' ∧ field = some value := by
    intro field key'
    cases field with
    | none => simp
    | some v => simp [eq_comm]
  simp only [pairs, List.mem_append, hfield, or_assoc]

theorem isKey_of_mem_pairs (p : Provenance) {t : Str × Str} (ht : t ∈ p.pairs) : IsKey t.1 := by
  have htoken : ∀ key : Str, (key ≠ [] ∧ key.all isTokenChar = true) → IsKey key := fun key hkey =>
    ⟨hkey.1, List.all_eq_true.1 hkey.2⟩
  rcases mem_pairs.1 ht with ⟨hkey, -⟩ | ⟨hkey, -⟩ | ⟨hkey, -⟩ | ⟨hkey, -⟩ <;> rw [hkey] <;>
    exact htoken _ (by decide)

theorem parseTrailers_formatMessage {p : Provenance} (h : p.Clean) (B : TrailerBlocks)
    (subject : Str) : parseTrailers B (logBody (p.formatMessage B subject)) =
      parseTrailers B subject ++ p.tidy := by
  rw [parseTrailers_logBody, formatMessage]
  split_ifs with hnil
  · rw [tidy, hnil, List.map_nil, List.append_nil]
  · exact parseTrailers_interpretTrailers
      (fun t ht => ⟨p.isKey_of_mem_pairs ht, (h t ht).1⟩) hnil subject

theorem clean_of_lastValue {ts : List (Str × Str)} (h : ∀ t ∈ ts, IsTrailer t) {key value : Str}
    (hvalue : lastValue ts key = some value) : '\n' ∉ value ∧ trim value = value := by
  obtain ⟨t, ht, rfl⟩ := Option.map_eq_some_iff.1 hvalue
  have hmem : t ∈ ts := List.mem_of_mem_filter (List.mem_of_getLast? ht)
  exact ⟨fun hlf => (h t hmem).value ((trim_isInfix _).subset hlf), trim_trim _⟩

/-- The fields that are read of a message. -/
def readFields (ts : List (Str × Str)) : Provenance :=
  ⟨lastValue ts trailerActor, lastValue ts trailerSession, lastValue ts trailerSource,
    lastValue ts trailerConfidence⟩

theorem clean_readFields {ts : List (Str × Str)} (h : ∀ t ∈ ts, IsTrailer t) :
    (readFields ts).Clean := by
  intro t ht
  rcases mem_pairs.1 ht with ⟨-, hvalue⟩ | ⟨-, hvalue⟩ | ⟨-, hvalue⟩ | ⟨-, hvalue⟩ <;>
    exact clean_of_lastValue h hvalue

theorem readFields_append_tidy {p : Provenance} (h : p.Clean) (ts : List (Str × Str)) :
    readFields (ts ++ p.tidy) = ⟨p.actor.or (lastValue ts trailerActor),
      p.session.or (lastValue ts trailerSession), p.source.or (lastValue ts trailerSource),
      p.confidence.or (lastValue ts trailerConfidence)⟩ := by
  have htrim : ∀ (field : Option Str) (key : Str),
      (∀ v, field = some v → (key, v) ∈ p.pairs) → field.map trim = field := by
    intro field key hfield
    cases field with
    | none => rfl
    | some v => exact congrArg some (h _ (hfield v rfl)).2
  obtain ⟨h₁, h₂, h₃, h₄⟩ := p.lastValue_tidy
  rw [readFields, lastValue_append, lastValue_append, lastValue_append, lastValue_append, h₁, h₂, h₃,
    h₄, htrim p.actor trailerActor fun v hv => mem_pairs.2 (by simp [hv]),
    htrim p.session trailerSession fun v hv => mem_pairs.2 (by simp [hv]),
    htrim p.source trailerSource fun v hv => mem_pairs.2 (by simp [hv]),
    htrim p.confidence trailerConfidence fun v hv => mem_pairs.2 (by simp [hv])]

/-- They are the fields that were set, unless the trailers before them set another one. -/
theorem readFields_append_tidy_eq_iff {p : Provenance} (h : p.Clean) (ts : List (Str × Str)) :
    readFields (ts ++ p.tidy) = p ↔ ∀ t ∈ ts,
      t.1 ∈ [trailerActor, trailerSession, trailerSource, trailerConfidence] →
        t.1 ∈ p.pairs.map Prod.fst := by
  have hfield : ∀ field value : Option Str, field.or value = field ↔ (field = none → value = none) := by
    intro field value
    cases field <;> simp
  -- a field that is set has a trailer of its own behind the others, and that one is read
  have hset : ∀ (field : Option Str) (key : Str), lastValue p.tidy key = field.map trim →
      (field = none ↔ key ∉ p.pairs.map Prod.fst) := by
    intro field key hlast
    rw [← Option.map_eq_none_iff (f := trim), ← hlast, lastValue_eq_none_iff, tidy,
      List.forall_mem_map, List.mem_map]
    constructor
    · rintro hts ⟨t, ht, hkey⟩
      exact hts t ht hkey
    · exact fun hnone t ht hkey => hnone ⟨t, ht, hkey⟩
  obtain ⟨h₁, h₂, h₃, h₄⟩ := p.lastValue_tidy
  have hall : readFields (ts ++ p.tidy) = p ↔
      (p.actor.or (lastValue ts trailerActor) = p.actor ∧
        p.session.or (lastValue ts trailerSession) = p.session ∧
        p.source.or (lastValue ts trailerSource) = p.source ∧
        p.confidence.or (lastValue ts trailerConfidence) = p.confidence) := by
    rw [readFields_append_tidy h]
    exact Provenance.ext_iff
  rw [hall, hfield, hfield, hfield, hfield, lastValue_eq_none_iff, lastValue_eq_none_iff,
    lastValue_eq_none_iff, lastValue_eq_none_iff, hset _ _ h₁, hset _ _ h₂, hset _ _ h₃,
    hset _ _ h₄]
  constructor
  · rintro ⟨hactor, hsession, hsource, hconfidence⟩ t ht hkey
    by_contra hopen
    simp only [List.mem_cons, List.not_mem_nil, or_false] at hkey
    rcases hkey with hkey | hkey | hkey | hkey <;> rw [hkey] at hopen
    exacts [hactor hopen t ht hkey, hsession hopen t ht hkey, hsource hopen t ht hkey,
      hconfidence hopen t ht hkey]
  · intro hts
    refine ⟨fun hopen t ht hkey => ?_, fun hopen t ht hkey => ?_, fun hopen t ht hkey => ?_,
      fun hopen t ht hkey => ?_⟩ <;>
        exact hopen (hkey ▸ hts t ht (by simp [hkey]))

end Provenance

theorem isTrailer_of_mem_parseTrailers {B : TrailerBlocks} {message : Str} {t : Str × Str}
    (ht : t ∈ parseTrailers B message) : IsTrailer t := by
  rw [parseTrailers] at ht
  split_ifs at ht
  · refine isTrailer_of_mem_trailersFrom (fun t ht => by cases ht) (fun l hl => ?_) ht
    refine lf_notMem_of_mem_rows (s := message) ?_
    rw [(endsWith (message.rows '\n')).eq]
    exact List.mem_append_left _ (List.mem_append_right _ hl)
  · cases ht

theorem readProvenanceTrailers_eq (B : TrailerBlocks) (body : Str) : readProvenanceTrailers B body =
    if Provenance.readFields (parseTrailers B body) = {} then none
    else some (Provenance.readFields (parseTrailers B body)) := by
  rw [readProvenanceTrailers, foldl_readLine fun t ht => isTrailer_of_mem_parseTrailers ht, foldl_put]
  rfl

/-- **When a commit reads as it was written**: for every subject and provenance, just if the values are
clean and the subject sets no field that is not set. -/
theorem readProvenanceTrailers_iff (B : TrailerBlocks) (p : Provenance) (subject : Str) :
    readProvenanceTrailers B (logBody (p.formatMessage B subject)) =
        (if p = {} then none else some p) ↔
      p.Clean ∧ ¬ p.Forged B subject := by
  have hsame : ∀ q : Provenance, (if q = {} then none else some q) =
      (if p = {} then none else some p) ↔ q = p := by
    intro q
    split_ifs with hq hp hp
    · exact iff_of_true rfl (hq.trans hp.symm)
    · exact iff_of_false not_false fun h => hp (h ▸ hq)
    · exact iff_of_false not_false fun h => hq (h.trans hp)
    · exact Option.some_inj
  rw [readProvenanceTrailers_eq, hsame]
  constructor
  · intro hread
    have hclean : p.Clean := hread ▸
      Provenance.clean_readFields fun t ht => isTrailer_of_mem_parseTrailers ht
    refine ⟨hclean, ?_⟩
    rintro ⟨t, ht, hkey, hopen⟩
    rw [Provenance.parseTrailers_formatMessage hclean] at hread
    exact hopen ((Provenance.readFields_append_tidy_eq_iff hclean _).1 hread t ht hkey)
  · rintro ⟨hclean, hforged⟩
    rw [Provenance.parseTrailers_formatMessage hclean,
      Provenance.readFields_append_tidy_eq_iff hclean]
    intro t ht hkey
    by_contra hopen
    exact hforged ⟨t, ht, hkey, hopen⟩

/-- The blocks of a git that is configured to see nothing else as one. -/
def TrailerBlocks.plain : TrailerBlocks where
  isBlock ls := ls ≠ [] ∧ ∀ l ∈ ls, (trailerOf l).isSome
  all ls hne h := decide_eq_true ⟨hne, h⟩
  concat ls l h hl := by
    have hls := of_decide_eq_true h
    refine decide_eq_true ⟨by simp, fun l' hl' => ?_⟩
    rcases List.mem_append.1 hl' with hl' | hl'
    · exact hls.2 l' hl'
    · exact List.mem_singleton.1 hl' ▸ hl

/-- What `remember` writes without a session. -/
def exampleProvenance : Provenance :=
  ⟨some "agent:claude-code".toList, none, some "conversation".toList, some "proposed".toList⟩

/-- The subject of an item whose title goes on after a blank line. -/
def exampleSubject : Str := "remember: tea\n\nWkp-Session: 7f3c".toList

/-- **A title that adds a session.** -/
theorem session_forged :
    readProvenanceTrailers .plain (logBody (exampleProvenance.formatMessage .plain exampleSubject)) =
        some { exampleProvenance with session := some "7f3c".toList } ∧
      readProvenanceTrailers .plain
        (logBody (exampleProvenance.formatMessage .plain exampleSubject)) ≠ some exampleProvenance :=
  ⟨by decide, by decide⟩

end Git

end Wkp
