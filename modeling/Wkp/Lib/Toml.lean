import Wkp.Lib.Str

/-!
# TOML

The documents of TOML 1.0, as far as their tables, keys and strings go.  Numbers, dates and booleans
are kept as they are written, and what makes a document invalid only because of them, or because
something is defined twice, is not looked for: every valid document is read, and a few more are.

* `Toml.parse` : a document to its expressions, each with its text and the table that it is in.
* `Toml.stringsAt` : the strings in the array at a path.
* `Toml.string_append`, `Toml.array_pieces` : a string, and an array of them, in a longer text.
-/

open Rust

namespace Toml

/-- A value. -/
inductive Value
  | string (s : Str)
  /-- A number, a date or a boolean, as it is written. -/
  | scalar (text : Str)
  | array (items : List Value)
  /-- An inline table: the values at every path in it. -/
  | table (bindings : List (List Str × Value))

/-- The strings in an array. -/
def Value.strings : Value → List Str
  | array items => items.filterMap fun
    | string s => some s
    | _ => none
  | _ => []

/-- The values at and below a path. -/
def Value.under (path : List Str) (v : Value) : List (List Str × Value) :=
  (path, v) :: match v with
    | table bindings => bindings.map fun b => (path ++ b.1, b.2)
    | _ => []

/-! ### Blanks -/

/-- A blank within a line. -/
def isBlank (c : Char) : Bool := c = ' ' || c = '\t'

/-- The text after blanks. -/
def skipBlanks (s : Str) : Str := s.dropWhile isBlank

/-- The text after blanks, comments and ends of lines. -/
def skipLines : Bool → Str → Str
  | _, [] => []
  | true, c :: s => skipLines (c ≠ '\n') s
  | false, c :: s =>
    if isBlank c || c = '\n' || c = '\r' then skipLines false s
    else if c = '#' then skipLines true s
    else c :: s

/-- Nothing but blanks and a comment. -/
def isTail (line : Str) : Bool :=
  match skipBlanks (line.rdropWhile (· = '\r')) with
  | [] => true
  | c :: _ => c = '#'

/-! ### Strings -/

/-- The text up to the quote that closes a basic string, and the text after it. -/
def closeBasic : Bool → Str → Option (Str × Str)
  | _, [] => none
  | escaped, c :: s =>
    if c = '\n' then none
    else if c = '"' ∧ escaped = false then some ([], s)
    else (closeBasic (!escaped && c = '\\') s).map fun p => (c :: p.1, p.2)

/-- The text up to the quote that closes a literal string, and the text after it. -/
def closeLiteral : Str → Option (Str × Str)
  | [] => none
  | c :: s =>
    if c = '\n' then none
    else if c = '\'' then some ([], s)
    else (closeLiteral s).map fun p => (c :: p.1, p.2)

/-- The text up to the three quotes that close a string over several lines, and the text after them.
Up to two quotes right before them are still in the string. -/
def closeLong (quote : Char) (escapes : Bool) : Bool → Str → Option (Str × Str)
  | _, [] => none
  | escaped, c :: s =>
    if c = quote ∧ escaped = false ∧ [quote, quote].isPrefixOf s then
      let n := min ((c :: s).takeWhile (· = quote)).length 5
      some (List.replicate (n - 3) quote, (c :: s).drop n)
    else (closeLong quote escapes (escapes && !escaped && c = '\\') s).map
      fun p => (c :: p.1, p.2)

/-- A hexadecimal digit. -/
def hexValue (c : Char) : Option ℕ :=
  if '0' ≤ c ∧ c ≤ '9' then some (c.toNat - '0'.toNat)
  else if 'a' ≤ c ∧ c ≤ 'f' then some (c.toNat - 'a'.toNat + 10)
  else if 'A' ≤ c ∧ c ≤ 'F' then some (c.toNat - 'A'.toNat + 10)
  else none

/-- The character of the first `n` hexadecimal digits. -/
def hexChar (n : ℕ) (s : Str) : Option Char := do
  let digits ← (s.take n).mapM hexValue
  let code := digits.foldl (fun code d => 16 * code + d) 0
  if digits.length = n ∧ code.isValidChar then some (Char.ofNat code) else none

/-- The text of a basic string, without escapes; `long` allows for lines that go on. -/
def unescape (long : Bool) : ℕ → Str → Option Str
  | 0, _ => none
  | _ + 1, [] => some []
  | n + 1, c :: s =>
    if c ≠ '\\' then (unescape long n s).map (c :: ·)
    else match s with
      | [] => none
      | e :: s =>
        if e = 'b' then (unescape long n s).map ('\x08' :: ·)
        else if e = 't' then (unescape long n s).map ('\t' :: ·)
        else if e = 'n' then (unescape long n s).map ('\n' :: ·)
        else if e = 'f' then (unescape long n s).map ('\x0c' :: ·)
        else if e = 'r' then (unescape long n s).map ('\r' :: ·)
        else if e = '"' then (unescape long n s).map ('"' :: ·)
        else if e = '\\' then (unescape long n s).map ('\\' :: ·)
        else if e = 'u' then do return (← hexChar 4 s) :: (← unescape long n (s.drop 4))
        else if e = 'U' then do return (← hexChar 8 s) :: (← unescape long n (s.drop 8))
        else if long && (e = '\n' || e = '\r' || isBlank e) then
          unescape long n (s.dropWhile fun c => isBlank c || c = '\n' || c = '\r')
        else none

/-- A string over several lines without the end of its first line, if nothing else is on it. -/
def dropFirstNewline (s : Str) : Str :=
  match stripPrefix s ['\r', '\n'] with
  | some r => r
  | none => (stripPrefix s ['\n']).getD s

/-- A string of any kind, and the text after it. -/
def string (s : Str) : Option (Str × Str) :=
  match stripPrefix s ['"', '"', '"'] with
  | some r => do
    let (raw, r) ← closeLong '"' true false r
    return (← unescape true (raw.length + 1) (dropFirstNewline raw), r)
  | none => match stripPrefix s ['\'', '\'', '\''] with
    | some r => (closeLong '\'' false false r).map fun p => (dropFirstNewline p.1, p.2)
    | none => match stripPrefix s ['"'] with
      | some r => do
        let (raw, r) ← closeBasic false r
        return (← unescape false (raw.length + 1) raw, r)
      | none => (stripPrefix s ['\'']).bind closeLiteral

/-! ### Keys and values -/

/-- A character of a bare key. -/
def isBare (c : Char) : Bool := c.isAlphanum || c = '-' || c = '_'

/-- A key without dots, and the text after it. -/
def simpleKey (s : Str) : Option (Str × Str) :=
  if s.head? = some '"' then do
    let (raw, r) ← closeBasic false s.tail
    return (← unescape false (raw.length + 1) raw, r)
  else if s.head? = some '\'' then closeLiteral s.tail
  else if s.takeWhile isBare = [] then none
  else some (s.takeWhile isBare, s.dropWhile isBare)

/-- A key with dots, and the text after it. -/
def key : ℕ → Str → Option (List Str × Str)
  | 0, _ => none
  | n + 1, s => do
    let (k, r) ← simpleKey s
    match stripPrefix (skipBlanks r) ['.'] with
    | none => return ([k], r)
    | some r =>
      let (ks, r) ← key n (skipBlanks r)
      return (k :: ks, r)

/-- A character of a number, a date or a boolean. -/
def isScalar (c : Char) : Bool :=
  c.isAlphanum || c = '+' || c = '-' || c = '_' || c = '.' || c = ':' || c = ' '

mutual

/-- A value, and the text after it. -/
def value : ℕ → Str → Option (Value × Str)
  | 0, _ => none
  | n + 1, s => match string s with
    | some (v, r) => some (.string v, r)
    | none => match s with
      | [] => none
      | c :: r =>
        if c = '[' then (array n r).map fun p => (.array p.1, p.2)
        else if c = '\x7b' then (fields n r).map fun p => (.table p.1, p.2)
        else if trim (s.takeWhile isScalar) = [] then none
        else some (.scalar (trim (s.takeWhile isScalar)), s.dropWhile isScalar)

/-- The items of an array, and the text after it. -/
def array : ℕ → Str → Option (List Value × Str)
  | 0, _ => none
  | n + 1, s => match stripPrefix (skipLines false s) [']'] with
    | some r => some ([], r)
    | none => do
      let (v, r) ← value n (skipLines false s)
      match stripPrefix (skipLines false r) [','] with
      | some r =>
        let (vs, r) ← array n r
        return (v :: vs, r)
      | none => (stripPrefix (skipLines false r) [']']).map fun r => ([v], r)

/-- The values in an inline table, and the text after it. -/
def fields : ℕ → Str → Option (List (List Str × Value) × Str)
  | 0, _ => none
  | n + 1, s => match stripPrefix (skipBlanks s) ['\x7d'] with
    | some r => some ([], r)
    | none => do
      let (k, r) ← key n (skipBlanks s)
      let r ← stripPrefix (skipBlanks r) ['=']
      let (v, r) ← value n (skipBlanks r)
      match stripPrefix (skipBlanks r) [','] with
      | some r =>
        let (bs, r) ← fields n r
        return (v.under k ++ bs, r)
      | none => (stripPrefix (skipBlanks r) ['\x7d']).map fun r => (v.under k, r)

end

/-! ### Documents -/

/-- A table by its header. -/
structure Table where
  /-- An element of an array of tables. -/
  isArray : Bool := false
  /-- Its path. -/
  path : List Str := []
  deriving DecidableEq

/-- What an expression says. -/
inductive Expr
  | blank
  | header (table : Table)
  | keyVal (path : List Str) (v : Value)

/-- An expression of a document. -/
structure Item where
  /-- Its text, without the end of its last line. -/
  text : Str
  /-- The table that it is in. -/
  table : Table
  /-- What it says. -/
  expr : Expr

/-- The header of a table. -/
def header (line : Str) : Option Table :=
  match stripPrefix line ['[', '['] with
  | some r => do
    let (path, r) ← key line.length (skipBlanks r)
    let r ← stripPrefix (skipBlanks r) [']', ']']
    if isTail r then some ⟨true, path⟩ else none
  | none => do
    let r ← stripPrefix line ['[']
    let (path, r) ← key line.length (skipBlanks r)
    let r ← stripPrefix (skipBlanks r) [']']
    if isTail r then some ⟨false, path⟩ else none

/-- A key with its value, and the text after it. -/
def keyVal (n : ℕ) (s : Str) : Option (List Str × Value × Str) := do
  let (path, r) ← key n (skipBlanks s)
  let r ← stripPrefix (skipBlanks r) ['=']
  let (v, r) ← value n (skipBlanks r)
  return (path, v, r)

/-- The first expression of a text in a table: what it says, and the length of its text. -/
def expr (n : ℕ) (s : Str) : Option (Expr × ℕ) :=
  let line := s.takeWhile (· ≠ '\n')
  if isTail line then some (.blank, line.length)
  else if (skipBlanks line).head? = some '[' then
    (header (skipBlanks line)).map fun t => (.header t, line.length)
  else do
    let (path, v, r) ← keyVal n s
    if isTail (r.takeWhile (· ≠ '\n')) then
      some (.keyVal path v, s.length - (r.dropWhile (· ≠ '\n')).length)
    else none

/-- The table after an expression. -/
def Expr.next (table : Table) : Expr → Table
  | header t => t
  | _ => table

/-- The expressions of a text in a table; `n` bounds their number. -/
def items : ℕ → Table → Str → Option (List Item)
  | 0, _, _ => none
  | n + 1, table, s => do
    let (e, len) ← expr (s.length + 1) s
    match s.drop len with
    | [] => return [⟨s.take len, table, e⟩]
    | c :: rest =>
      if c = '\n' then
        let more ← items n (e.next table) rest
        return ⟨s.take len, table, e⟩ :: more
      else none

/-- A document to its expressions. -/
def parse (s : Str) : Option (List Item) := items (s.length + 1) {} s

/-- The strings in the array at a path. -/
def stringsAt (path : List Str) (doc : List Item) : List Str :=
  doc.flatMap fun item => match item.expr with
    | .keyVal k v =>
      if item.table.isArray then []
      else ((v.under (item.table.path ++ k)).filter fun b => b.1 = path).flatMap fun b => b.2.strings
    | _ => []

/-! ### Strings in a longer text -/

theorem closeBasic_append {escaped : Bool} {s raw r : Str}
    (h : closeBasic escaped s = some (raw, r)) (t : Str) :
    closeBasic escaped (s ++ t) = some (raw, r ++ t) := by
  induction s generalizing escaped raw with
  | nil => cases h
  | cons c s ih =>
    rw [closeBasic] at h
    rw [List.cons_append, closeBasic]
    split_ifs at h ⊢ with hlf hquote
    · cases h
      rfl
    · obtain ⟨⟨raw', r'⟩, hp, heq⟩ := Option.map_eq_some_iff.1 h
      cases heq
      rw [ih hp]
      rfl

theorem closeLiteral_append {s raw r : Str} (h : closeLiteral s = some (raw, r)) (t : Str) :
    closeLiteral (s ++ t) = some (raw, r ++ t) := by
  induction s generalizing raw with
  | nil => cases h
  | cons c s ih =>
    rw [closeLiteral] at h
    rw [List.cons_append, closeLiteral]
    split_ifs at h ⊢ with hlf hquote
    · cases h
      rfl
    · obtain ⟨⟨raw', r'⟩, hp, heq⟩ := Option.map_eq_some_iff.1 h
      cases heq
      rw [ih hp]
      rfl

theorem takeWhile_append_of_head {p : Char → Bool} {t : Str} (ht : ∀ c ∈ t.head?, p c = false)
    (s : Str) : (s ++ t).takeWhile p = s.takeWhile p := by
  induction s with
  | nil =>
    cases t with
    | nil => rfl
    | cons c t => exact List.takeWhile_cons_of_neg (by simp [ht c rfl])
  | cons c s ih =>
    rw [List.cons_append, List.takeWhile_cons, List.takeWhile_cons, ih]

/-- The end of a string over several lines is not moved by text that does not begin with a quote. -/
theorem closeLong_append {quote : Char} {escapes escaped : Bool} {s raw : Str}
    (h : closeLong quote escapes escaped s = some (raw, [])) {t : Str}
    (ht : ∀ c ∈ t.head?, c ≠ quote) : closeLong quote escapes escaped (s ++ t) = some (raw, t) := by
  induction s generalizing escaped raw with
  | nil => cases h
  | cons c s ih =>
    rw [closeLong] at h
    rw [List.cons_append, closeLong]
    have htake := takeWhile_append_of_head (p := (· = quote)) (t := t)
      (fun d hd => decide_eq_false (ht d hd)) (c :: s)
    by_cases hclose : c = quote ∧ escaped = false ∧ [quote, quote].isPrefixOf s = true
    · rw [if_pos hclose] at h
      obtain ⟨hraw, hdrop⟩ := Prod.mk.inj (Option.some.inj h)
      have hstarts : [quote, quote].isPrefixOf (s ++ t) = true :=
        List.isPrefixOf_iff_prefix.2
          ((List.isPrefixOf_iff_prefix.1 hclose.2.2).trans (List.prefix_append s t))
      rw [if_pos ⟨hclose.1, hclose.2.1, hstarts⟩, ← List.cons_append, htake]
      dsimp only at hraw hdrop ⊢
      rw [hraw, List.drop_append_of_le_length, hdrop, List.nil_append]
      exact (min_le_left _ _).trans (List.takeWhile_sublist _).length_le
    · rw [if_neg hclose] at h
      obtain ⟨⟨raw', r'⟩, hp, heq⟩ := Option.map_eq_some_iff.1 h
      cases heq
      rw [if_neg, ih hp]
      · rfl
      · -- there is no closing quote in what follows
        rintro ⟨hc, he, hstarts⟩
        refine hclose ⟨hc, he, ?_⟩
        rw [List.isPrefixOf_iff_prefix] at hstarts ⊢
        cases s with
        | nil => cases hp
        | cons d s =>
          cases s with
          | nil =>
            rw [closeLong] at hp
            split_ifs at hp with hd
            · exact absurd hd.2.2 (by simp)
            · cases hp
          | cons d' s =>
            obtain ⟨u, hu⟩ := hstarts
            have hfirst := List.cons.inj hu
            have hsecond := List.cons.inj hfirst.2
            exact ⟨s, by rw [← hfirst.1, ← hsecond.1]; rfl⟩

theorem stripPrefix_append_eq_none {s t p : Str} {q : Char} (h : stripPrefix s p = none)
    (hp : ∀ c ∈ p, c = q) (ht : ∀ c ∈ t.head?, c ≠ q) : stripPrefix (s ++ t) p = none := by
  induction p generalizing s with
  | nil => cases h.symm.trans (stripPrefix_nil s)
  | cons d p ih =>
    obtain rfl := hp d List.mem_cons_self
    cases s with
    | nil =>
      cases t with
      | nil => exact stripPrefix_nil_cons d p
      | cons c t => rw [List.nil_append, stripPrefix_cons, if_neg (ht c rfl)]
    | cons c s =>
      rw [List.cons_append]
      rw [stripPrefix_cons] at h ⊢
      split_ifs at h ⊢ with hc
      · exact ih h fun c hc => hp c (List.mem_cons_of_mem _ hc)
      · rfl

theorem stripPrefix_append_eq_some {s p r : Str} (h : stripPrefix s p = some r) (t : Str) :
    stripPrefix (s ++ t) p = some (r ++ t) := by
  rw [stripPrefix_eq_some_iff] at h ⊢
  rw [h, List.append_assoc]

/-- **A string reads the same in a longer text**, unless another quote follows it. -/
theorem string_append {s u : Str} (h : string s = some (u, [])) {t : Str}
    (ht : ∀ c ∈ t.head?, c ≠ '"' ∧ c ≠ '\'') : string (s ++ t) = some (u, t) := by
  have hdouble : ∀ c ∈ t.head?, c ≠ '"' := fun c hc => (ht c hc).1
  have hsingle : ∀ c ∈ t.head?, c ≠ '\'' := fun c hc => (ht c hc).2
  rw [string] at h ⊢
  -- the four kinds of strings, in the order in which their quotes are tried
  cases h₁ : stripPrefix s ['"', '"', '"'] with
  | some r =>
    rw [h₁] at h
    rw [stripPrefix_append_eq_some h₁ t]
    obtain ⟨⟨raw, r'⟩, hclose, h⟩ := Option.bind_eq_some_iff.1 h
    obtain ⟨v, hv, h⟩ := Option.bind_eq_some_iff.1 h
    cases h
    dsimp only
    rw [closeLong_append hclose hdouble]
    dsimp only [Option.bind_eq_bind, Option.bind_some]
    rw [hv]
    rfl
  | none =>
    rw [h₁] at h
    rw [stripPrefix_append_eq_none h₁ (q := '"') (by simp) hdouble]
    dsimp only at h ⊢
    cases h₂ : stripPrefix s ['\'', '\'', '\''] with
    | some r =>
      rw [h₂] at h
      rw [stripPrefix_append_eq_some h₂ t]
      obtain ⟨⟨raw, r'⟩, hclose, heq⟩ := Option.map_eq_some_iff.1 h
      cases heq
      dsimp only
      rw [closeLong_append hclose hsingle]
      rfl
    | none =>
      rw [h₂] at h
      rw [stripPrefix_append_eq_none h₂ (q := '\'') (by simp) hsingle]
      dsimp only at h ⊢
      cases h₃ : stripPrefix s ['"'] with
      | some r =>
        rw [h₃] at h
        rw [stripPrefix_append_eq_some h₃ t]
        obtain ⟨⟨raw, r'⟩, hclose, h⟩ := Option.bind_eq_some_iff.1 h
        obtain ⟨v, hv, h⟩ := Option.bind_eq_some_iff.1 h
        cases h
        dsimp only
        rw [closeBasic_append hclose]
        dsimp only [Option.bind_eq_bind, Option.bind_some]
        rw [hv]
        rfl
      | none =>
        rw [h₃] at h
        rw [stripPrefix_append_eq_none h₃ (q := '"') (by simp) hdouble]
        obtain ⟨r, h₄, hclose⟩ := Option.bind_eq_some_iff.1 h
        rw [stripPrefix_append_eq_some h₄ t]
        exact closeLiteral_append hclose t

theorem string_cons_eq_none {c : Char} (hd : c ≠ '"') (hs : c ≠ '\'') (s : Str) :
    string (c :: s) = none := by
  simp only [string, stripPrefix_cons, if_neg hd, if_neg hs, Option.bind_none]

theorem exists_cons_of_string {s : Str} {p : Str × Str} (h : string s = some p) :
    ∃ c r, s = c :: r ∧ (c = '"' ∨ c = '\'') := by
  cases s with
  | nil => cases h
  | cons c r =>
    refine ⟨c, r, rfl, ?_⟩
    by_contra hq
    rw [not_or] at hq
    rw [string_cons_eq_none hq.1 hq.2] at h
    cases h

/-! ### Arrays of strings -/

/-- No value begins with the character. -/
def isForeign (c : Char) : Bool :=
  c ≠ '"' && c ≠ '\'' && c ≠ '[' && c ≠ '\x7b' && !isScalar c

theorem value_eq_none {c : Char} (h : isForeign c = true) (n : ℕ) (s : Str) :
    value n (c :: s) = none := by
  simp only [isForeign, Bool.and_eq_true, decide_eq_true_eq, Bool.not_eq_true'] at h
  obtain ⟨⟨⟨⟨hd, hs⟩, hbracket⟩, hbrace⟩, hscalar⟩ := h
  cases n with
  | zero => rfl
  | succ n =>
    have htake : (c :: s).takeWhile isScalar = [] := List.takeWhile_cons_of_neg (by simp [hscalar])
    rw [value, string_cons_eq_none hd hs]
    dsimp only
    have htrim : trim [] = [] := rfl
    rw [if_neg hbracket, if_neg hbrace, htake, if_pos htrim]

/-- Whitespace other than blanks begins no value. -/
theorem isForeign_of_isWhitespace {c : Char} (h : isWhitespace c = true) (hb : isBlank c = false) :
    isForeign c = true := by
  have hne : ∀ d : Char, isWhitespace d = false → c ≠ d := by
    rintro d hd rfl
    rw [h] at hd
    cases hd
  have hspace : c ≠ ' ' := by
    rintro rfl
    exact absurd hb (by decide)
  simp only [isForeign, isScalar, isAlphanum_of_isWhitespace h, Bool.and_eq_true,
    decide_eq_true_eq, Bool.not_eq_true', Bool.false_or, Bool.or_eq_false_iff,
    decide_eq_false_iff_not]
  exact ⟨⟨⟨⟨hne _ (by decide), hne _ (by decide)⟩, hne _ (by decide)⟩, hne _ (by decide)⟩,
    ⟨⟨⟨⟨hne _ (by decide), hne _ (by decide)⟩, hne _ (by decide)⟩, hne _ (by decide)⟩,
      hne _ (by decide)⟩, hspace⟩

theorem skipBlanks_append {w : Str} (hw : ∀ c ∈ w, isWhitespace c = true) {c : Char}
    (hc : isBlank c = false) (s : Str) : skipBlanks (w ++ c :: s) = c :: s ∨
      ∃ d t, skipBlanks (w ++ c :: s) = d :: t ∧ isWhitespace d = true ∧ isBlank d = false := by
  induction w with
  | nil => exact .inl (List.dropWhile_cons_of_neg (by simp [hc]))
  | cons d w ih =>
    by_cases hd : isBlank d = true
    · have hskip : skipBlanks (d :: w ++ c :: s) = skipBlanks (w ++ c :: s) :=
        List.dropWhile_cons_of_pos hd
      rw [hskip]
      exact ih fun c hc => hw c (List.mem_cons_of_mem _ hc)
    · rw [Bool.not_eq_true] at hd
      exact .inr ⟨d, w ++ c :: s, List.dropWhile_cons_of_neg (by simp [hd]),
        hw d List.mem_cons_self, hd⟩

theorem skipLines_append {w : Str} (hw : ∀ c ∈ w, isWhitespace c = true) {c : Char}
    (hc : isWhitespace c = false) (hhash : c ≠ '#') (s : Str) :
    skipLines false (w ++ c :: s) = c :: s ∨
      ∃ d t, skipLines false (w ++ c :: s) = d :: t ∧ isWhitespace d = true ∧
        isBlank d = false := by
  induction w with
  | nil =>
    refine .inl ?_
    rw [List.nil_append, skipLines, if_neg, if_neg hhash]
    simp only [isBlank, Bool.or_eq_true, decide_eq_true_eq]
    rintro (((rfl | rfl) | rfl) | rfl) <;> exact absurd hc (by decide)
  | cons d w ih =>
    rw [List.cons_append, skipLines]
    split_ifs with hd hd'
    · exact ih fun c hc => hw c (List.mem_cons_of_mem _ hc)
    · rw [hd'] at hw
      exact absurd (hw '#' List.mem_cons_self) (by decide)
    · refine .inr ⟨d, _, rfl, hw d List.mem_cons_self, ?_⟩
      simp only [Bool.or_eq_true, not_or] at hd
      exact Bool.eq_false_iff.2 hd.1.1

/-- What comes first in the array after whitespace: the character that follows it, for otherwise
there is no array at all. -/
theorem skipLines_of_array {w : Str} (hw : ∀ c ∈ w, isWhitespace c = true) {c : Char}
    (hc : isWhitespace c = false) (hhash : c ≠ '#') {s : Str} {n : ℕ} {p : List Value × Str}
    (h : array (n + 1) (w ++ c :: s) = some p) : skipLines false (w ++ c :: s) = c :: s := by
  rcases skipLines_append hw hc hhash s with hskip | ⟨d, t, hskip, hd, hblank⟩
  · exact hskip
  · have hbracket : d ≠ ']' := by
      rintro rfl
      exact absurd hd (by decide)
    rw [array, hskip, stripPrefix_cons, if_neg hbracket] at h
    dsimp only at h
    rw [value_eq_none (isForeign_of_isWhitespace hd hblank)] at h
    cases h

/-- An array that begins with a string: the string, and either more after a comma or the end. -/
theorem array_string {s q u t : Str} (hskip : skipLines false s = q) (hs : string q = some (u, t))
    {n : ℕ} {vs : List Value} {r : Str} (h : array (n + 1) s = some (vs, r)) :
    (∃ x vs', skipLines false t = ',' :: x ∧ array n x = some (vs', r) ∧ vs = .string u :: vs') ∨
      skipLines false t = ']' :: r ∧ vs = [.string u] := by
  have hbracket : stripPrefix q [']'] = none := by
    obtain ⟨c, q, rfl, rfl | rfl⟩ := exists_cons_of_string hs <;>
      rw [stripPrefix_cons, if_neg (by decide)]
  rw [array, hskip, hbracket] at h
  dsimp only at h
  cases n with
  | zero => cases h
  | succ n =>
    have hvalue : value (n + 1) q = some (.string u, t) := by simp only [value.eq_def, hs]
    rw [hvalue] at h
    dsimp only [Option.bind_eq_bind, Option.bind_some] at h
    cases hcomma : stripPrefix (skipLines false t) [','] with
    | some x =>
      rw [hcomma] at h
      obtain ⟨⟨vs', r'⟩, harray, h⟩ := Option.bind_eq_some_iff.1 h
      cases h
      exact .inl ⟨x, vs', stripPrefix_eq_some_iff.1 hcomma, harray, rfl⟩
    | none =>
      rw [hcomma] at h
      obtain ⟨r', hend, h⟩ := Option.map_eq_some_iff.1 h
      cases h
      exact .inr ⟨stripPrefix_eq_some_iff.1 hend, rfl⟩

/-- What comes after the first of several pieces: the end of the array, or a comma and the others. -/
theorem join_pieces (p : Str) (ps : List Str) (tail : Str) :
    ∃ c x, join [','] (p :: ps) ++ ']' :: tail = p ++ c :: x ∧
      (c = ']' ∧ ps = [] ∨ c = ',' ∧ ps ≠ [] ∧ x = join [','] ps ++ ']' :: tail) := by
  cases ps with
  | nil =>
    refine ⟨']', tail, ?_, .inl ⟨rfl, rfl⟩⟩
    rw [join, List.intercalate_singleton]
  | cons q ps =>
    refine ⟨',', _, ?_, .inr ⟨rfl, List.cons_ne_nil _ _, rfl⟩⟩
    rw [join_cons [','] p (List.cons_ne_nil q ps)]
    simp only [List.append_assoc, List.cons_append, List.nil_append]

theorem array_blank {p : Str} (hp : trim p = []) {n : ℕ} {x r : Str} {vs : List Value} :
    array n (p ++ ',' :: x) ≠ some (vs, r) := by
  intro h
  cases n with
  | zero => cases h
  | succ n =>
    have hskip := skipLines_of_array (trim_eq_nil_iff.1 hp) (by decide) (by decide) h
    have hbracket : stripPrefix (',' :: x) [']'] = none := by rw [stripPrefix_cons, if_neg (by decide)]
    rw [array, hskip, hbracket] at h
    dsimp only at h
    rw [value_eq_none (by decide)] at h
    cases h

/-- A piece that is a string reads as that string before a comma, and before the end. -/
theorem string_piece {w u : Str} {s : Str} (hs : string s = some (u, []))
    (hw : ∀ c ∈ w, isWhitespace c = true) {c : Char} (hc : c = ',' ∨ c = ']') (x : Str) :
    string (s ++ (w ++ c :: x)) = some (u, w ++ c :: x) := by
  refine string_append hs fun d hd => ?_
  cases w with
  | nil =>
    cases hd
    rcases hc with rfl | rfl <;> decide
  | cons e w =>
    cases hd
    have he := hw d List.mem_cons_self
    constructor <;> rintro rfl <;> exact absurd he (by decide)

/-- An array that begins with a piece that is a string: after the comma comes the rest of it. -/
theorem array_piece {p u : Str} (hp : string (trim p) = some (u, [])) {c : Char}
    (hc : c = ',' ∨ c = ']') {n : ℕ} {x r : Str} {vs : List Value}
    (h : array n (p ++ c :: x) = some (vs, r)) :
    (∃ m vs', c = ',' ∧ array m x = some (vs', r) ∧ vs = .string u :: vs') ∨
      c = ']' ∧ vs = [.string u] := by
  cases n with
  | zero => cases h
  | succ n =>
    obtain ⟨w, w', hpiece, hw, hw'⟩ := exists_eq_append_trim p
    obtain ⟨q, s, htrim, hq⟩ := exists_cons_of_string hp
    have hquote : isWhitespace q = false ∧ q ≠ '#' := by
      rcases hq with rfl | rfl <;> decide
    have hspace : isWhitespace c = false ∧ c ≠ '#' := by
      rcases hc with rfl | rfl <;> decide
    have hassoc : p ++ c :: x = w ++ (trim p ++ (w' ++ c :: x)) := by
      conv_lhs => rw [hpiece]
      simp only [List.append_assoc]
    rw [hassoc] at h
    have hskip : skipLines false (w ++ (trim p ++ (w' ++ c :: x))) = trim p ++ (w' ++ c :: x) := by
      rw [htrim, List.cons_append] at h ⊢
      exact skipLines_of_array hw hquote.1 hquote.2 h
    -- what is after the whitespace is what is after the string, or no array goes on so
    have hnext := skipLines_append hw' hspace.1 hspace.2 x
    rcases array_string hskip (string_piece hp hw' hc x) h with
      ⟨x', vs', hcomma, harray, hvs⟩ | ⟨hend, hvs⟩
    · rw [hcomma] at hnext
      rcases hnext with heq | ⟨d, t, heq, hd, -⟩
      · obtain ⟨hcomma', rfl⟩ := List.cons.inj heq
        exact .inl ⟨n, vs', hcomma'.symm, harray, hvs⟩
      · obtain ⟨rfl, -⟩ := List.cons.inj heq
        exact absurd hd (by decide)
    · rw [hend] at hnext
      rcases hnext with heq | ⟨d, t, heq, hd, -⟩
      · exact .inr ⟨(List.cons.inj heq).1.symm, hvs⟩
      · obtain ⟨rfl, -⟩ := List.cons.inj heq
        exact absurd hd (by decide)

/-- **An array is read piece by piece**, when each piece is blank or a string. -/
theorem array_pieces {unquoted : Str → Str} {pieces : List Str} (hne : pieces ≠ [])
    (hp : ∀ p ∈ pieces, trim p = [] ∨ string (trim p) = some (unquoted p, [])) {n : ℕ} {tail : Str}
    {vs : List Value} {r : Str}
    (h : array n (join [','] pieces ++ ']' :: tail) = some (vs, r)) :
    ∀ p ∈ pieces, trim p ≠ [] → Value.string (unquoted p) ∈ vs := by
  induction pieces generalizing n vs with
  | nil => exact absurd rfl hne
  | cons p ps ih =>
    obtain ⟨c, x, htext, hc⟩ := join_pieces p ps tail
    rw [htext] at h
    intro p' hp' hne'
    rcases hp p List.mem_cons_self with hblank | hstring
    · -- nothing comes before the comma: then it is not a comma but the end
      rcases hc with ⟨rfl, rfl⟩ | ⟨rfl, -⟩
      · rw [List.mem_singleton.1 hp'] at hne'
        exact absurd hblank hne'
      · exact absurd h (array_blank hblank)
    · rcases array_piece hstring (hc.symm.imp And.left And.left) h with
        ⟨m, vs', rfl, harray, rfl⟩ | ⟨rfl, rfl⟩
      · rcases hc with ⟨hc, -⟩ | ⟨-, hps, rfl⟩
        · cases hc
        · rcases List.mem_cons.1 hp' with rfl | hp'
          · exact List.mem_cons_self
          · exact List.mem_cons_of_mem _ (ih hps
              (fun p hp' => hp p (List.mem_cons_of_mem _ hp')) harray p' hp' hne')
      · rcases hc with ⟨-, rfl⟩ | ⟨hc, -⟩
        · rw [List.mem_singleton.1 hp']
          exact List.mem_cons_self
        · cases hc

/-! ### The expressions of a document -/

theorem expr_eq_some {n len : ℕ} {s : Str} {e : Expr} (h : expr n s = some (e, len)) :
    (e = .blank ∧ '\n' ∉ s.take len ∧ isTail (s.take len) = true) ∨
    (∃ t, e = .header t ∧ '\n' ∉ s.take len ∧ (skipBlanks (s.take len)).head? = some '[' ∧
      header (skipBlanks (s.take len)) = some t) ∨
    ∃ path v r, e = .keyVal path v ∧ keyVal n s = some (path, v, r) := by
  have hline : s.take (s.takeWhile (· ≠ '\n')).length = s.takeWhile (· ≠ '\n') :=
    (List.prefix_iff_eq_take.1 (List.takeWhile_prefix _)).symm
  have hlf : '\n' ∉ s.takeWhile (· ≠ '\n') := fun hmem => by
    simpa using List.mem_takeWhile_imp hmem
  unfold expr at h
  dsimp only at h
  split_ifs at h with htail hhead
  · cases h
    rw [hline]
    exact .inl ⟨rfl, hlf, htail⟩
  · obtain ⟨t, ht, heq⟩ := Option.map_eq_some_iff.1 h
    cases heq
    rw [hline]
    exact .inr (.inl ⟨t, rfl, hlf, hhead, ht⟩)
  · obtain ⟨⟨path, v, r⟩, hkey, h⟩ := Option.bind_eq_some_iff.1 h
    dsimp only at h
    split_ifs at h
    cases h
    exact .inr (.inr ⟨path, v, r, rfl, hkey⟩)

theorem items_eq_some {n : ℕ} {table : Table} {s : Str} {doc : List Item}
    (h : items (n + 1) table s = some doc) :
    ∃ e len, expr (s.length + 1) s = some (e, len) ∧
      (s = s.take len ∧ doc = [⟨s.take len, table, e⟩] ∨
        ∃ rest more, s = s.take len ++ '\n' :: rest ∧
          items n (e.next table) rest = some more ∧ doc = ⟨s.take len, table, e⟩ :: more) := by
  rw [items] at h
  obtain ⟨⟨e, len⟩, hexpr, h⟩ := Option.bind_eq_some_iff.1 h
  refine ⟨e, len, hexpr, ?_⟩
  dsimp only at h
  have happend := List.take_append_drop len s
  cases hdrop : s.drop len with
  | nil =>
    rw [hdrop] at h happend
    cases h
    exact .inl ⟨happend.symm.trans (List.append_nil _), rfl⟩
  | cons c rest =>
    rw [hdrop] at h happend
    dsimp only at h
    split_ifs at h with hc
    obtain ⟨more, hmore, h⟩ := Option.bind_eq_some_iff.1 h
    cases h
    rw [hc] at happend
    exact .inr ⟨rest, more, happend.symm, hmore, rfl⟩

theorem key_eq_none {c : Char} (hd : c ≠ '"') (hs : c ≠ '\'') (hc : isBare c = false) (n : ℕ)
    (s : Str) : key n (c :: s) = none := by
  cases n with
  | zero => rfl
  | succ n =>
    have hsimple : simpleKey (c :: s) = none := by
      have htake : (c :: s).takeWhile isBare = [] := List.takeWhile_cons_of_neg (by simp [hc])
      rw [simpleKey, if_neg (by simpa using hd), if_neg (by simpa using hs), if_pos htake]
    rw [key, hsimple]
    rfl

theorem key_bare {k : Str} (hne : k ≠ []) (hk : ∀ c ∈ k, isBare c = true) {c : Char} {s : Str}
    (hc : isBare c = false) (hdot : (skipBlanks (c :: s)).head? ≠ some '.') (n : ℕ) :
    key (n + 1) (k ++ c :: s) = some ([k], c :: s) := by
  have htake : (k ++ c :: s).takeWhile isBare = k := by
    rw [List.takeWhile_append_of_pos hk, List.takeWhile_cons_of_neg (by simp [hc]), List.append_nil]
  have hdrop : (k ++ c :: s).dropWhile isBare = c :: s := by
    rw [List.dropWhile_append_of_pos hk, List.dropWhile_cons_of_neg (by simp [hc])]
  have hquote : ∀ q : Char, isBare q = false → (k ++ c :: s).head? ≠ some q := by
    intro q hq hhead
    cases k with
    | nil => exact hne rfl
    | cons d k =>
      cases hhead
      rw [hk q List.mem_cons_self] at hq
      cases hq
  have hnone : stripPrefix (skipBlanks (c :: s)) ['.'] = none := by
    cases hskip : skipBlanks (c :: s) with
    | nil => exact stripPrefix_nil_cons _ _
    | cons d t =>
      rw [hskip] at hdot
      rw [stripPrefix_cons, if_neg (by simpa using hdot)]
  have hsimple : simpleKey (k ++ c :: s) = some (k, c :: s) := by
    rw [simpleKey, if_neg (hquote _ (by decide)), if_neg (hquote _ (by decide)), htake, hdrop,
      if_neg hne]
  rw [key, hsimple]
  dsimp only [Option.bind_eq_bind, Option.bind_some]
  rw [hnone]
  rfl

theorem isBare_of_isWhitespace {c : Char} (h : isWhitespace c = true) : isBare c = false := by
  have hne : ∀ d : Char, isWhitespace d = false → c ≠ d := by
    rintro d hd rfl
    rw [h] at hd
    cases hd
  simp only [isBare, isAlphanum_of_isWhitespace h, Bool.false_or, Bool.or_eq_false_iff,
    decide_eq_false_iff_not]
  exact ⟨hne _ (by decide), hne _ (by decide)⟩

theorem keyVal_array {k : Str} (hne : k ≠ []) (hk : ∀ c ∈ k, isBare c = true) {w w₁ w₂ : Str}
    (hw : ∀ c ∈ w, isWhitespace c = true) (hw₁ : ∀ c ∈ w₁, isWhitespace c = true)
    (hw₂ : ∀ c ∈ w₂, isWhitespace c = true) {n : ℕ} {s r : Str} {path : List Str} {v : Value}
    (h : keyVal n (w ++ (k ++ (w₁ ++ '=' :: (w₂ ++ '[' :: s)))) = some (path, v, r)) :
    path = [k] ∧ ∃ m vs, array m s = some (vs, r) ∧ v = .array vs := by
  have hkey : ∀ {d : Char} {t : Str} {n : ℕ}, isWhitespace d = true → key n (d :: t) = none := by
    intro d t n hd
    refine key_eq_none ?_ ?_ (isBare_of_isWhitespace hd) n t <;>
      rintro rfl <;> exact absurd hd (by decide)
  have hskip : skipBlanks (w ++ (k ++ (w₁ ++ '=' :: (w₂ ++ '[' :: s)))) =
      k ++ (w₁ ++ '=' :: (w₂ ++ '[' :: s)) := by
    obtain ⟨c, k', rfl⟩ := List.exists_cons_of_ne_nil hne
    have hblank : isBlank c = false := by
      have hc := hk c List.mem_cons_self
      simp only [isBlank, Bool.or_eq_false_iff, decide_eq_false_iff_not]
      constructor <;> rintro rfl <;> exact absurd hc (by decide)
    rcases skipBlanks_append hw hblank (k' ++ (w₁ ++ '=' :: (w₂ ++ '[' :: s))) with
      heq | ⟨d, t, heq, hd, -⟩
    · exact heq
    · rw [List.cons_append, keyVal, heq, hkey hd] at h
      cases h
  rw [keyVal, hskip] at h
  cases n with
  | zero => cases h
  | succ n =>
    -- the equals sign follows the key, for otherwise there is no value
    have hequals := skipBlanks_append hw₁ (c := '=') (by decide) (w₂ ++ '[' :: s)
    obtain ⟨c, t, hct, hbare⟩ :
        ∃ c t, w₁ ++ '=' :: (w₂ ++ '[' :: s) = c :: t ∧ isBare c = false := by
      cases w₁ with
      | nil => exact ⟨'=', _, rfl, by decide⟩
      | cons d w₁ => exact ⟨d, _, rfl, isBare_of_isWhitespace (hw₁ d List.mem_cons_self)⟩
    rw [hct] at h hequals
    have hdot : (skipBlanks (c :: t)).head? ≠ some '.' := by
      rcases hequals with heq | ⟨d, t, heq, hd, -⟩
      · rw [heq]
        exact fun hdot => absurd (Option.some.inj hdot) (by decide)
      · rw [heq]
        rintro hdot
        rw [Option.some.inj hdot] at hd
        exact absurd hd (by decide)
    rw [key_bare hne hk hbare hdot] at h
    dsimp only [Option.bind_eq_bind, Option.bind_some] at h
    rcases hequals with heq | ⟨d, t, heq, hd, -⟩
    · have hstrip : stripPrefix ('=' :: (w₂ ++ '[' :: s)) ['='] = some (w₂ ++ '[' :: s) :=
        stripPrefix_append ['='] _
      rw [heq, hstrip] at h
      dsimp only [Option.bind_some] at h
      obtain ⟨⟨v', r'⟩, hvalue, h⟩ := Option.bind_eq_some_iff.1 h
      cases h
      refine ⟨rfl, ?_⟩
      rcases skipBlanks_append hw₂ (c := '[') (by decide) s with heq | ⟨d, t, heq, hd, hblank⟩
      · rw [heq, value, string_cons_eq_none (by decide) (by decide)] at hvalue
        dsimp only at hvalue
        rw [if_pos rfl] at hvalue
        obtain ⟨⟨vs, r'⟩, harray, heq⟩ := Option.map_eq_some_iff.1 hvalue
        cases heq
        exact ⟨n, vs, harray, rfl⟩
      · rw [heq, value_eq_none (isForeign_of_isWhitespace hd hblank)] at hvalue
        cases hvalue
    · have hstrip : stripPrefix (d :: t) ['='] = none := by
        rw [stripPrefix_cons, if_neg]
        rintro rfl
        exact absurd hd (by decide)
      rw [heq, hstrip] at h
      cases h

end Toml
