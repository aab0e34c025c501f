import Wkp.Lib.Hex
import Wkp.Lib.Lossy
import Wkp.Lib.Slices

/-!
# Responses of `git http-backend`

* `Git.parseCgiResponse` : the status, the headers and the body of a response.
* `Git.Header`, `Git.printCgi` : headers that are well formed, and a response.
* `Git.positionOf_blank` : the blank line is found where it is.
* `Git.parseCgiResponse_printCgi_iff` : **when a response is read as it was meant.**
-/

namespace Wkp

open Rust

namespace Git

/-! ### Reader -/

/-- `CgiResponse`. -/
structure CgiResponse where
  /-- The status. -/
  status : ℕ
  /-- The other headers. -/
  headers : List (Str × Str)
  /-- The body. -/
  body : List UInt8
  deriving DecidableEq

/-- `str::eq_ignore_ascii_case`. -/
def eqIgnoreAsciiCase (s t : Str) : Bool := s.map Char.toLower = t.map Char.toLower

/-- The code that the value of a status line starts with. -/
def statusCode (value : Str) : ℕ := ((splitWhitespace value).head?.bind (fromStr 16)).getD 200

/-- A line of the headers, after the status and the headers so far. -/
def readHeader (acc : ℕ × List (Str × Str)) (line : Str) : ℕ × List (Str × Str) :=
  let line := trim line
  if line = [] then acc
  else match splitOnce ':' line with
    | none => acc
    | some (key, value) =>
      let key := trim key
      let value := trim value
      if eqIgnoreAsciiCase key "Status".toList then (statusCode value, acc.2)
      else (acc.1, acc.2 ++ [(key, value)])

/-- `\r`. -/
def cr : UInt8 := 13

/-- The separator: where the headers end, and where the body starts. -/
def separator (raw : List UInt8) : Option (ℕ × ℕ) :=
  match positionOf [cr, lf, cr, lf] raw with
  | some i => some (i, i + 4)
  | none => (positionOf [lf, lf] raw).map fun i => (i, i + 2)

/-- `parse_cgi_response`. -/
def parseCgiResponse (raw : List UInt8) : Except Str CgiResponse :=
  match separator raw with
  | none => .error "git http-backend produced no CGI header/body separator".toList
  | some (headerEnd, bodyStart) =>
    let (status, headers) :=
      (lines (toStringLossy (raw.take headerEnd))).foldl readHeader (200, [])
    .ok ⟨status, headers, raw.drop bodyStart⟩

/-! ### Responses -/

/-- How all lines of the headers end. -/
inductive LineEnd
  | crlf
  | lf
  deriving DecidableEq

/-- The end of a line. -/
def LineEnd.text : LineEnd → Str
  | crlf => ['\r', '\n']
  | lf => ['\n']

/-- A header without a line break.  Whitespace around its parts would be no part of them. -/
structure Header where
  /-- The key. -/
  key : Str
  /-- The value. -/
  value : Str
  /-- The first colon ends the key. -/
  colon : ':' ∉ key
  /-- The key is the whole key. -/
  keyTrimmed : Trimmed key
  /-- The value is the whole value. -/
  valueTrimmed : Trimmed value
  /-- The line is one line. -/
  lf : '\n' ∉ key ∧ '\n' ∉ value

namespace Header

/-- The line of a header. -/
def line (h : Header) : Str := h.key ++ ':' :: ' ' :: h.value

/-- The header is the status. -/
def isStatus (h : Header) : Bool := eqIgnoreAsciiCase h.key "Status".toList

end Header

/-- The response with these headers and this body. -/
def printCgi (eol : LineEnd) (hs : List Header) (body : List UInt8) : List UInt8 :=
  utf8 (hs.flatMap (fun h => h.line ++ eol.text) ++ eol.text) ++ body

/-- What it means: the last status counts. -/
def response (hs : List Header) (body : List UInt8) : CgiResponse where
  status := ((hs.filter Header.isStatus).getLast?.map fun h => statusCode h.value).getD 200
  headers := (hs.filter fun h => ¬ h.isStatus).map fun h => (h.key, h.value)
  body := body

/-! ### Lines -/

theorem Header.lf_notMem_line (h : Header) : '\n' ∉ h.line := by
  simp [line, h.lf.1, h.lf.2]

theorem Header.exists_trim_line (h : Header) :
    ∃ rest, trim h.line = h.key ++ ':' :: rest ∧ trim rest = h.value := by
  have htrimmed : ∀ rest, (∀ c ∈ (':' :: rest).getLast?, isWhitespace c = false) →
      Trimmed (h.key ++ ':' :: rest) := by
    intro rest hrest
    refine ⟨fun c hc => ?_, fun c hc => hrest c (by rwa [List.getLast?_append_cons] at hc)⟩
    rw [List.head?_append] at hc
    cases hkey : h.key.head? with
    | none => rw [hkey] at hc; exact Option.mem_some_iff.1 hc ▸ (by decide)
    | some d => rw [hkey] at hc; exact h.keyTrimmed.1 c (hkey ▸ hc)
  by_cases hvalue : h.value = []
  · refine ⟨[], ?_, by rw [hvalue]; rfl⟩
    have hline : h.line = (h.key ++ [':']) ++ [' '] := by rw [line, hvalue]; simp
    rw [hline, trim_concat (by decide)]
    exact trim_eq_self (htrimmed [] (by simp; decide))
  · refine ⟨' ' :: h.value, trim_eq_self (htrimmed _ fun c hc => h.valueTrimmed.2 c ?_), ?_⟩
    · rwa [List.getLast?_cons_cons, List.getLast?_cons_of_ne_nil hvalue] at hc
    · rw [trim_cons_of_ws (by decide), trim_eq_self h.valueTrimmed]

theorem readHeader_trim (acc : ℕ × List (Str × Str)) (l : Str) :
    readHeader acc (trim l) = readHeader acc l := by
  rw [readHeader, readHeader, trim_trim]

theorem readHeader_line (acc : ℕ × List (Str × Str)) (h : Header) : readHeader acc h.line =
    if h.isStatus then (statusCode h.value, acc.2) else (acc.1, acc.2 ++ [(h.key, h.value)]) := by
  obtain ⟨rest, hline, hrest⟩ := h.exists_trim_line
  have hne : h.key ++ ':' :: rest ≠ [] := by simp
  rw [readHeader, hline]
  dsimp only
  rw [if_neg hne, splitOnce_append h.colon]
  dsimp only
  rw [trim_eq_self h.keyTrimmed, hrest]
  rfl

theorem foldl_readHeader (hs : List Header) (acc : ℕ × List (Str × Str)) :
    (hs.map Header.line).foldl readHeader acc =
      (((hs.filter Header.isStatus).getLast?.map fun h => statusCode h.value).getD acc.1,
        acc.2 ++ (hs.filter fun h => ¬ h.isStatus).map fun h => (h.key, h.value)) := by
  induction hs using List.reverseRecOn with
  | nil => simp
  | append_singleton hs h ih =>
    rw [List.map_append, List.foldl_append, ih, List.map_singleton, List.foldl_cons, List.foldl_nil,
      readHeader_line, List.filter_append, List.filter_append]
    cases hstatus : h.isStatus <;> simp [hstatus]

theorem map_trim_lines_headers (eol : LineEnd) (hs : List Header) (h : Header) :
    (lines (hs.flatMap (fun h => h.line ++ eol.text) ++ h.line)).map trim =
      ((hs ++ [h]).map Header.line).map trim := by
  -- a carriage return belongs to the line that it ends
  obtain ⟨r, hr, hws⟩ : ∃ r, eol.text = r ++ ['\n'] ∧ ∀ c ∈ r, isWhitespace c = true ∧ c ≠ '\n' := by
    cases eol with
    | crlf => exact ⟨['\r'], rfl, List.forall_mem_singleton.2 (by decide)⟩
    | lf => exact ⟨[], rfl, by simp⟩
  have hlf : ∀ l ∈ hs.map fun h => h.line ++ r, '\n' ∉ l := by
    simp only [List.forall_mem_map, List.mem_append, not_or]
    exact fun h _ => ⟨h.lf_notMem_line, fun hmem => (hws _ hmem).2 rfl⟩
  have htext : hs.flatMap (fun h => h.line ++ eol.text) =
      (hs.map fun h => h.line ++ r).flatMap (· ++ ['\n']) := by
    rw [List.flatMap_map]
    exact List.flatMap_congr fun h _ => by rw [hr, List.append_assoc]
  have hne : h.line ≠ [] := by simp [Header.line]
  rw [htext, map_trim_lines, splitInclusive_lines hlf, splitInclusive_of_notMem h.lf_notMem_line hne]
  simp only [List.map_append, List.map_map, List.map_singleton]
  congr 1
  refine List.map_congr_left fun h _ => ?_
  rw [Function.comp_apply, Function.comp_apply, Function.comp_apply, trim_concat (by decide),
    trim_append_of_all fun c hc => (hws c hc).1]

/-! ### The separator -/

/-- The bytes that end a line. -/
def LineEnd.bytes : LineEnd → List UInt8
  | crlf => [cr, Rust.lf]
  | lf => [Rust.lf]

/-- The bytes of a line. -/
structure LineBytes (l : List UInt8) : Prop where
  /-- It is one line. -/
  lf : Rust.lf ∉ l
  /-- It is not blank. -/
  ne : l ≠ []
  /-- What comes after it is no part of it. -/
  cr : l.getLast? ≠ some cr

variable {eol : LineEnd} {l m : List UInt8}

theorem not_blank_isPrefix_append (hl : lf ∉ l) (hne : l ≠ []) (rest : List UInt8) :
    ¬ eol.bytes <+: l ++ (eol.bytes ++ rest) := by
  intro h
  cases eol with
  | lf =>
    obtain ⟨a, l, rfl⟩ := List.exists_cons_of_ne_nil hne
    obtain ⟨rfl, -⟩ := List.cons_prefix_cons.1 h
    exact hl List.mem_cons_self
  | crlf =>
    match l, hne with
    | [a], _ =>
      obtain ⟨-, h⟩ := List.cons_prefix_cons.1 h
      exact absurd (List.cons_prefix_cons.1 h).1 (by decide)
    | a :: b :: l, _ =>
      obtain ⟨-, h⟩ := List.cons_prefix_cons.1 h
      obtain ⟨rfl, -⟩ := List.cons_prefix_cons.1 h
      exact hl (List.mem_cons_of_mem _ List.mem_cons_self)

theorem positionOf_blank (hl : lf ∉ l) (m : List UInt8) :
    positionOf (eol.bytes ++ eol.bytes) (l ++ (eol.bytes ++ m)) =
      if eol.bytes <+: m then some l.length
      else (positionOf (eol.bytes ++ eol.bytes) m).map (· + (l.length + eol.bytes.length)) := by
  have hpass : ∀ l', l' ≠ [] → l' <:+ l → ¬ eol.bytes ++ eol.bytes <+: l' ++ (eol.bytes ++ m) :=
    fun l' hne hsuffix h => not_blank_isPrefix_append (fun hmem => hl (hsuffix.subset hmem)) hne m
      ((List.prefix_append _ _).trans h)
  have hne : eol.bytes ++ eol.bytes ≠ [] := by cases eol <;> exact List.cons_ne_nil _ _
  rw [positionOf_append hpass]
  split_ifs with hm
  · rw [positionOf_of_isPrefix hne (List.prefix_append_right_inj _ |>.2 hm)]
    exact congrArg some (Nat.zero_add _)
  · have hend : ∀ l', l' ≠ [] → l' <:+ eol.bytes → ¬ eol.bytes ++ eol.bytes <+: l' ++ m := by
      intro l' hne' hsuffix h
      cases eol with
      | lf =>
        obtain rfl | hsuffix := List.suffix_cons_iff.1 hsuffix
        · exact hm ((List.prefix_append_right_inj [lf]).1 h)
        · exact hne' (List.suffix_nil.1 hsuffix)
      | crlf =>
        obtain rfl | hsuffix := List.suffix_cons_iff.1 hsuffix
        · exact hm ((List.prefix_append_right_inj [cr, lf]).1 h)
        obtain rfl | hsuffix := List.suffix_cons_iff.1 hsuffix
        · exact absurd (List.cons_prefix_cons.1 h).1 (by decide)
        · exact hne' (List.suffix_nil.1 hsuffix)
    rw [positionOf_append hend, Option.map_map]
    exact Option.map_congr fun i _ => by rw [Function.comp_apply]; omega

/-- **The blank line is found where it is.** -/
theorem positionOf_lines {ls : List (List UInt8)} (hls : ∀ l ∈ ls, LineBytes l) (hl : LineBytes l)
    (body : List UInt8) :
    positionOf (eol.bytes ++ eol.bytes)
        (ls.flatMap (· ++ eol.bytes) ++ (l ++ (eol.bytes ++ (eol.bytes ++ body)))) =
      some (ls.flatMap (· ++ eol.bytes) ++ l).length := by
  induction ls with
  | nil => rw [List.flatMap_nil, List.nil_append, positionOf_blank hl.lf,
      if_pos (List.prefix_append _ _), List.nil_append]
  | cons l' ls ih =>
    have hl' := hls l' List.mem_cons_self
    have hnext : ¬ eol.bytes <+:
        ls.flatMap (· ++ eol.bytes) ++ (l ++ (eol.bytes ++ (eol.bytes ++ body))) := by
      cases ls with
      | nil => exact not_blank_isPrefix_append hl.lf hl.ne _
      | cons l'' ls =>
        have hl'' := hls l'' (by simp)
        rw [List.flatMap_cons, List.append_assoc, List.append_assoc]
        exact not_blank_isPrefix_append hl''.lf hl''.ne _
    rw [List.flatMap_cons, List.append_assoc, List.append_assoc, positionOf_blank hl'.lf,
      if_neg hnext, ih fun l hl => hls l (List.mem_cons_of_mem _ hl)]
    refine congrArg some ?_
    simp only [List.length_append]
    omega

/-- The pattern of the first pass does not match in lines that end otherwise. -/
theorem positionOf_crlf_append (hlf : lf ∉ l) (hcr : l.getLast? ≠ some cr) (m : List UInt8) :
    positionOf [cr, lf, cr, lf] (l ++ (lf :: m)) =
      (positionOf [cr, lf, cr, lf] m).map (· + (l.length + 1)) := by
  have hpass : ∀ l', l' ≠ [] → l' <:+ l ++ [lf] → ¬ [cr, lf, cr, lf] <+: l' ++ m := by
    rintro l' hne ⟨p, hp⟩ h
    match l', hne with
    | [a], _ =>
      obtain rfl := List.singleton_inj.1 (List.append_inj' hp rfl).2
      exact absurd (List.cons_prefix_cons.1 h).1 (by decide)
    | a :: b :: t, _ =>
      obtain ⟨rfl, hrest⟩ := List.cons_prefix_cons.1 h
      obtain ⟨rfl, -⟩ := List.cons_prefix_cons.1 hrest
      rcases List.eq_nil_or_concat t with rfl | ⟨t, z, rfl⟩
      · have hp : (p ++ [cr]) ++ [lf] = l ++ [lf] := by simpa using hp
        rw [← (List.append_inj' hp rfl).1] at hcr
        exact hcr List.getLast?_concat
      · have hp : (p ++ cr :: lf :: t) ++ [z] = l ++ [lf] := by simpa using hp
        rw [← (List.append_inj' hp rfl).1] at hlf
        exact hlf (by simp)
  have happend := positionOf_append hpass
  rw [List.append_assoc, List.singleton_append, List.length_append] at happend
  exact happend

theorem positionOf_crlf_lines {ls : List (List UInt8)} (hls : ∀ l ∈ ls, LineBytes l)
    (m : List UInt8) : positionOf [cr, lf, cr, lf] (ls.flatMap (· ++ [lf]) ++ m) =
      (positionOf [cr, lf, cr, lf] m).map (· + (ls.flatMap (· ++ [lf])).length) := by
  induction ls with
  | nil => exact Option.map_id'.symm
  | cons l ls ih =>
    have hl := hls l List.mem_cons_self
    rw [List.flatMap_cons, List.append_assoc, List.append_assoc, List.singleton_append,
      positionOf_crlf_append hl.lf hl.cr, ih fun l hl => hls l (List.mem_cons_of_mem _ hl),
      Option.map_map]
    refine Option.map_congr fun i _ => ?_
    simp only [Function.comp_apply, List.length_append, List.length_singleton]
    omega

/-! ### Responses that are read -/

theorem getLast?_of_utf8 {s : Str} (h : (utf8 s).getLast? = some cr) : s.getLast? = some '\r' := by
  rcases List.eq_nil_or_concat s with rfl | ⟨s, c, rfl⟩
  · cases h
  · have hlast : (utf8 [c]).getLast? = some cr := by
      rw [List.concat_eq_append, utf8_append, List.getLast?_append] at h
      rcases Option.or_eq_some_iff.1 h with h | ⟨hnone, -⟩
      · exact h
      · have hnil := utf8_injective ((List.getLast?_eq_none_iff.1 hnone).trans utf8_nil.symm)
        exact absurd hnil (List.cons_ne_nil c [])
    obtain ⟨c', hc', hbyte⟩ := List.mem_flatMap.1 (List.mem_of_getLast? hlast)
    obtain rfl := List.mem_singleton.1 hc'
    have hnat : (13 : ℕ) = c'.toNat := toNat_of_mem_utf8EncodeChar hbyte (by decide)
    have hchar : c' = '\r' := Char.toNat_inj.1 hnat.symm
    rw [hchar, List.concat_eq_append, List.getLast?_concat]

theorem utf8_text (eol : LineEnd) : utf8 eol.text = eol.bytes := by
  cases eol <;> rfl

theorem Header.lineBytes (h : Header) : LineBytes (utf8 h.line) where
  lf hmem := by
    obtain ⟨c, hc, hbyte⟩ := List.mem_flatMap.1 hmem
    exact lf_notMem_utf8EncodeChar (fun heq => h.lf_notMem_line (heq ▸ hc)) hbyte
  ne heq := by
    have := utf8_injective (heq.trans utf8_nil.symm)
    simp [line] at this
  cr hlast := by
    have hchar := getLast?_of_utf8 hlast
    rw [line, List.getLast?_append_cons, List.getLast?_cons_cons] at hchar
    by_cases hvalue : h.value = []
    · rw [hvalue] at hchar
      cases hchar
    · rw [List.getLast?_cons_of_ne_nil hvalue] at hchar
      exact absurd (h.valueTrimmed.2 _ hchar) (by decide)

theorem utf8_flatMap_line (eol : LineEnd) (hs : List Header) :
    utf8 (hs.flatMap fun h => h.line ++ eol.text) =
      (hs.map fun h => utf8 h.line).flatMap (· ++ eol.bytes) := by
  rw [utf8, List.flatMap_assoc, List.flatMap_map]
  exact List.flatMap_congr fun h _ => (utf8_append h.line eol.text).trans (by rw [utf8_text])

theorem printCgi_concat (eol : LineEnd) (hs : List Header) (h : Header) (body : List UInt8) :
    printCgi eol (hs ++ [h]) body =
      (hs.map fun h => utf8 h.line).flatMap (· ++ eol.bytes) ++
        (utf8 h.line ++ (eol.bytes ++ (eol.bytes ++ body))) := by
  simp only [printCgi, List.flatMap_append, List.flatMap_singleton, utf8_append, utf8_text,
    utf8_flatMap_line, List.append_assoc]

theorem foldl_readHeader_lines (eol : LineEnd) (hs : List Header) (h : Header) :
    (lines (hs.flatMap (fun h => h.line ++ eol.text) ++ h.line)).foldl readHeader (200, []) =
      ((response (hs ++ [h]) []).status, (response (hs ++ [h]) []).headers) := by
  have htrim : ∀ ls : List Str, ls.foldl readHeader (200, []) =
      (ls.map trim).foldl readHeader (200, []) := fun ls => by
    rw [List.foldl_map]
    exact congrArg (fun f => List.foldl f (200, []) ls)
      (funext fun acc => funext fun l => (readHeader_trim acc l).symm)
  rw [htrim, map_trim_lines_headers, ← htrim, foldl_readHeader]
  rfl

theorem parseCgiResponse_of_separator (eol : LineEnd) (hs : List Header) (h : Header)
    (body : List UInt8)
    (hsep : separator (printCgi eol (hs ++ [h]) body) =
      some (((hs.map fun h => utf8 h.line).flatMap (· ++ eol.bytes) ++ utf8 h.line).length,
        ((hs.map fun h => utf8 h.line).flatMap (· ++ eol.bytes) ++ utf8 h.line).length +
          (eol.bytes ++ eol.bytes).length)) :
    parseCgiResponse (printCgi eol (hs ++ [h]) body) = .ok (response (hs ++ [h]) body) := by
  have hhead : (hs.map fun h => utf8 h.line).flatMap (· ++ eol.bytes) ++ utf8 h.line =
      utf8 (hs.flatMap (fun h => h.line ++ eol.text) ++ h.line) := by
    rw [utf8_append, utf8_flatMap_line]
  have hraw : printCgi eol (hs ++ [h]) body =
      utf8 (hs.flatMap (fun h => h.line ++ eol.text) ++ h.line) ++
        ((eol.bytes ++ eol.bytes) ++ body) := by
    rw [printCgi_concat, ← hhead]
    simp only [List.append_assoc]
  rw [hhead] at hsep
  rw [parseCgiResponse, hsep]
  dsimp only
  rw [hraw, List.take_left, toStringLossy_utf8, foldl_readHeader_lines,
    ← List.drop_drop, List.drop_left, List.drop_left]
  rfl

theorem lineBytes_of_mem {hs : List Header} : ∀ l ∈ hs.map fun h => utf8 h.line, LineBytes l :=
  List.forall_mem_map.2 fun h _ => h.lineBytes

theorem positionOf_printCgi (eol : LineEnd) (hs : List Header) (h : Header) (body : List UInt8) :
    positionOf (eol.bytes ++ eol.bytes) (printCgi eol (hs ++ [h]) body) =
      some ((hs.map fun h => utf8 h.line).flatMap (· ++ eol.bytes) ++ utf8 h.line).length := by
  rw [printCgi_concat]
  exact positionOf_lines lineBytes_of_mem h.lineBytes body

theorem positionOf_crlf_printCgi (hs : List Header) (h : Header) (body : List UInt8) :
    positionOf [cr, lf, cr, lf] (printCgi .lf (hs ++ [h]) body) =
      (positionOf [cr, lf, cr, lf] body).map (· + ((printCgi .lf (hs ++ [h]) []).length)) := by
  have hraw : ∀ body, printCgi .lf (hs ++ [h]) body =
      ((hs ++ [h]).map fun h => utf8 h.line).flatMap (· ++ [lf]) ++ ([] ++ lf :: body) := fun body => by
    rw [printCgi_concat]
    simp [LineEnd.bytes]
  rw [hraw, hraw, positionOf_crlf_lines lineBytes_of_mem, positionOf_crlf_append (by simp) (by simp),
    Option.map_map]
  refine Option.map_congr fun i _ => ?_
  simp only [Function.comp_apply, List.length_append, List.length_nil, List.length_singleton,
    List.nil_append]
  omega

theorem parseCgiResponse_crlf (hs : List Header) (h : Header) (body : List UInt8) :
    parseCgiResponse (printCgi .crlf (hs ++ [h]) body) = .ok (response (hs ++ [h]) body) := by
  have hfirst : positionOf [cr, lf, cr, lf] (printCgi .crlf (hs ++ [h]) body) = _ :=
    positionOf_printCgi .crlf hs h body
  refine parseCgiResponse_of_separator .crlf hs h body ?_
  rw [separator, hfirst]
  rfl

/-- A response whose lines end otherwise, when the first pass finds nothing. -/
theorem parseCgiResponse_lf (hs : List Header) (h : Header) {body : List UInt8}
    (hbody : ¬ [cr, lf, cr, lf] <:+: body) :
    parseCgiResponse (printCgi .lf (hs ++ [h]) body) = .ok (response (hs ++ [h]) body) := by
  have hsecond : positionOf [lf, lf] (printCgi .lf (hs ++ [h]) body) = _ :=
    positionOf_printCgi .lf hs h body
  have hfirst := positionOf_crlf_printCgi hs h body
  rw [(positionOf_eq_none_iff (List.cons_ne_nil _ _)).2 hbody, Option.map_none] at hfirst
  refine parseCgiResponse_of_separator .lf hs h body ?_
  rw [separator, hfirst]
  dsimp only
  rw [hsecond]
  rfl

/-- A blank line in the body is taken for the one before it. -/
theorem parseCgiResponse_lf_ne (hs : List Header) (h : Header) {body : List UInt8}
    (hbody : [cr, lf, cr, lf] <:+: body) :
    parseCgiResponse (printCgi .lf (hs ++ [h]) body) ≠ .ok (response (hs ++ [h]) body) := by
  intro heq
  have hfirst := positionOf_crlf_printCgi hs h body
  cases hpos : positionOf [cr, lf, cr, lf] body with
  | none => exact (positionOf_eq_none_iff (List.cons_ne_nil _ _)).1 hpos hbody
  | some j =>
    rw [hpos, Option.map_some] at hfirst
    rw [parseCgiResponse, separator, hfirst] at heq
    have hlen := congrArg (fun response => response.body.length) (Except.ok.inj heq)
    have hraw : (printCgi .lf (hs ++ [h]) body).length =
        (printCgi .lf (hs ++ [h]) []).length + body.length := by
      simp only [printCgi, List.append_nil, List.length_append]
    have hfour : 4 ≤ body.length := hbody.length_le
    simp only [List.length_drop, hraw, response] at hlen
    omega

/-- **When a response is read as it was meant**: for every list of headers that is not empty, either way
to end lines, and every body, just if the lines end with `\r\n` or no such blank line is in the body. -/
theorem parseCgiResponse_printCgi_iff (eol : LineEnd) (h : Header) (hs : List Header)
    (body : List UInt8) :
    parseCgiResponse (printCgi eol (h :: hs) body) = .ok (response (h :: hs) body) ↔
      eol = .crlf ∨ ¬ [cr, lf, cr, lf] <:+: body := by
  obtain ⟨init, last, hconcat⟩ : ∃ init last, h :: hs = init ++ [last] :=
    ⟨_, _, (List.dropLast_concat_getLast (List.cons_ne_nil h hs)).symm⟩
  rw [hconcat]
  cases eol with
  | crlf => exact iff_of_true (parseCgiResponse_crlf init last body) (.inl rfl)
  | lf =>
    rw [or_iff_right (by decide)]
    exact ⟨fun heq hbody => parseCgiResponse_lf_ne init last hbody heq,
      fun hbody => parseCgiResponse_lf init last hbody⟩

/-- The type of a packfile. -/
def exampleHeader : Header where
  key := "Content-Type".toList
  value := "application/octet-stream".toList
  colon := by decide
  keyTrimmed := ⟨fun c hc => by cases hc; rfl, fun c hc => by cases hc; rfl⟩
  valueTrimmed := ⟨fun c hc => by cases hc; rfl, fun c hc => by cases hc; rfl⟩
  lf := by decide

/-- **A body that is cut**: the blank line in it is taken for the one before it. -/
theorem parseCgiResponse_cut :
    parseCgiResponse (printCgi .lf [exampleHeader] [1, cr, lf, cr, lf, 2]) ≠
      .ok (response [exampleHeader] [1, cr, lf, cr, lf, 2]) :=
  parseCgiResponse_lf_ne [] exampleHeader ⟨[1], [2], rfl⟩

end Git

end Wkp
