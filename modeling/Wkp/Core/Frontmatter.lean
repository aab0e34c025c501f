import Wkp.Lib.Str

/-!
# Frontmatter

The tolerant frontmatter parser and its serializer.

* `Frontmatter.parse` : a whole markdown file to its frontmatter, its body and the warnings.
  It never fails; a missing or malformed block gives the default frontmatter.
* `Frontmatter.render` : the block that `parse` reads, for a computed frontmatter.

`Wkp.Core.RoundTrip` says what comes back when a rendered block is parsed again.
-/

namespace Wkp

open Rust

/-- The `type` of an item. -/
inductive ItemType
  | projectState | knowledge | reference | feedback | skill | instruction | memory
  | other (raw : Str)
  deriving DecidableEq, Repr

/-- The `scope` of an item: who it is about or for. -/
inductive Scope
  | user | project | org
  | other (raw : Str)
  deriving DecidableEq, Repr

/-- `visibility`, which gates client-side encryption. -/
inductive Visibility
  | shared | «private»
  | other (raw : Str)
  deriving DecidableEq, Repr

/-- `confidence`: did the user say it. -/
inductive Confidence
  | stated | inferred | proposed
  | other (raw : Str)
  deriving DecidableEq, Repr

/-- `provenance.source`. -/
inductive SourceKind
  | conversation | file | tool | «import»
  | other (raw : Str)
  deriving DecidableEq, Repr

namespace ItemType

/-- `ItemType::parse`. -/
def parse (raw : Str) : ItemType :=
  if raw = "project-state".toList then projectState
  else if raw = "knowledge".toList then knowledge
  else if raw = "reference".toList then reference
  else if raw = "feedback".toList then feedback
  else if raw = "skill".toList then skill
  else if raw = "instruction".toList then instruction
  else if raw = "memory".toList then memory
  else other raw

/-- The `Display` form. -/
def display : ItemType → Str
  | projectState => "project-state".toList
  | knowledge => "knowledge".toList
  | reference => "reference".toList
  | feedback => "feedback".toList
  | skill => "skill".toList
  | instruction => "instruction".toList
  | memory => "memory".toList
  | other raw => raw

@[simp] theorem display_parse (raw : Str) : (parse raw).display = raw := by
  rw [parse]; split_ifs <;> first | (symm; assumption) | rfl

end ItemType

namespace Scope

/-- `Scope::parse`. -/
def parse (raw : Str) : Scope :=
  if raw = "user".toList then user
  else if raw = "project".toList then project
  else if raw = "org".toList then org
  else other raw

/-- The `Display` form. -/
def display : Scope → Str
  | user => "user".toList
  | project => "project".toList
  | org => "org".toList
  | other raw => raw

@[simp] theorem display_parse (raw : Str) : (parse raw).display = raw := by
  rw [parse]; split_ifs <;> first | (symm; assumption) | rfl

end Scope

namespace Visibility

/-- `Visibility::parse`. -/
def parse (raw : Str) : Visibility :=
  if raw = "shared".toList then shared
  else if raw = "private".toList then «private»
  else other raw

/-- The `Display` form. -/
def display : Visibility → Str
  | shared => "shared".toList
  | «private» => "private".toList
  | other raw => raw

@[simp] theorem display_parse (raw : Str) : (parse raw).display = raw := by
  rw [parse]; split_ifs <;> first | (symm; assumption) | rfl

end Visibility

namespace Confidence

/-- `Confidence::parse`. -/
def parse (raw : Str) : Confidence :=
  if raw = "stated".toList then stated
  else if raw = "inferred".toList then inferred
  else if raw = "proposed".toList then proposed
  else other raw

/-- The `Display` form. -/
def display : Confidence → Str
  | stated => "stated".toList
  | inferred => "inferred".toList
  | proposed => "proposed".toList
  | other raw => raw

@[simp] theorem display_parse (raw : Str) : (parse raw).display = raw := by
  rw [parse]; split_ifs <;> first | (symm; assumption) | rfl

end Confidence

namespace SourceKind

/-- `SourceKind::parse`. -/
def parse (raw : Str) : SourceKind :=
  if raw = "conversation".toList then conversation
  else if raw = "file".toList then file
  else if raw = "tool".toList then tool
  else if raw = "import".toList then «import»
  else other raw

/-- The `Display` form. -/
def display : SourceKind → Str
  | conversation => "conversation".toList
  | file => "file".toList
  | tool => "tool".toList
  | «import» => "import".toList
  | other raw => raw

@[simp] theorem display_parse (raw : Str) : (parse raw).display = raw := by
  rw [parse]; split_ifs <;> first | (symm; assumption) | rfl

end SourceKind

/-- `provenance`: who wrote the item, from where. -/
structure Provenance where
  /-- `human:<id>` or `agent:<harness>[:<model>]`. -/
  actor : Option Str := none
  /-- Opaque session identifier. -/
  session : Option Str := none
  /-- Where the content came from. -/
  source : Option SourceKind := none
  deriving DecidableEq, Repr, Inhabited

/-- The frontmatter of an item.  Every field is optional or defaulted. -/
structure Frontmatter where
  /-- `title`. -/
  title : Option Str := none
  /-- `type`. -/
  itemType : Option ItemType := none
  /-- `scope`. -/
  scope : Option Scope := none
  /-- `workspace`. -/
  workspace : Option Str := none
  /-- `visibility`. -/
  visibility : Option Visibility := none
  /-- `provenance`. -/
  provenance : Provenance := {}
  /-- `confidence`. -/
  confidence : Option Confidence := none
  /-- `expires`, as written. -/
  expires : Option Str := none
  /-- `tokens`, as written. -/
  tokensRaw : Option Str := none
  /-- The digits of `tokens`, when they fit 32 bits. -/
  tokens : Option ℕ := none
  /-- `tags`. -/
  tags : List Str := []
  /-- `refs`. -/
  refs : List Str := []
  /-- `updated`. -/
  updated : Option Str := none
  deriving DecidableEq, Repr, Inhabited

/-- A warning of the parser, with the text it quotes. -/
inductive Warning
  | unterminated
  | unexpectedIndented (content : Str)
  | noKey (content : Str)
  | topLevelProvenance (key : Str)
  | malformedProvenance (content : Str)
  deriving DecidableEq, Repr

/-- The text of a warning. -/
def Warning.message (T : CharTables) : Warning → Str
  | unterminated => "unterminated frontmatter block: no closing `---` line found; ".toList ++
      "treating entire file as body".toList
  | unexpectedIndented content => "ignoring unexpected indented line: ".toList ++ debug T content
  | noKey content => "ignoring line with no `key:`: ".toList ++ debug T content
  | topLevelProvenance key => "`".toList ++ key ++
      "` found at top level, expected under `provenance:`; using it anyway".toList
  | malformedProvenance content =>
      "ignoring malformed `provenance` line: ".toList ++ debug T content

/-- The result of parsing a whole file. -/
structure ParseResult where
  /-- The frontmatter, possibly all-default. -/
  frontmatter : Frontmatter
  /-- The body, the frontmatter block removed. -/
  body : Str
  /-- What was malformed. -/
  warnings : List Warning
  deriving DecidableEq, Repr

namespace Frontmatter

/-! ### Delimiters -/

/-- `---`, with whitespace around it and a line ending after it. -/
def isDelimiterLine (line : Str) : Bool :=
  decide (trim (line.rdropWhile fun c => c = '\n' ∨ c = '\r') = "---".toList)

/-- The rest of `input` after an opening delimiter line. -/
def stripOpeningDelimiter (input : Str) : Option Str :=
  match splitInclusive input with
  | [] => none
  | first :: rest => if isDelimiterLine first then some rest.flatten else none

/-- The loop of `splitAtClosingDelimiter`: `block` is what precedes the remaining lines. -/
def splitAtClosingDelimiterLoop : Str → List Str → Option (Str × Str)
  | _, [] => none
  | block, line :: rest =>
    if isDelimiterLine line then some (block, rest.flatten)
    else splitAtClosingDelimiterLoop (block ++ line) rest

/-- Split at the first delimiter line, into the block before it and the body after it. -/
def splitAtClosingDelimiter (afterOpen : Str) : Option (Str × Str) :=
  splitAtClosingDelimiterLoop [] (splitInclusive afterOpen)

/-! ### Values -/

/-- One logical line of the block: its indentation in spaces and what follows. -/
structure Line where
  /-- Leading spaces. -/
  indent : ℕ
  /-- The line without them and without trailing whitespace. -/
  content : Str
  deriving DecidableEq, Repr

/-- A raw line as a logical line; blank lines and comments are none. -/
def logicalLine (raw : Str) : Option Line :=
  let content := raw.rdropWhile (· = '\r')
  let trimmed := content.dropWhile (· = ' ')
  let indent := content.length - trimmed.length
  let trimmed := trimEnd trimmed
  if trimmed = [] ∨ trimmed.head? = some '#' then none else some ⟨indent, trimmed⟩

/-- The logical lines of a block. -/
def logicalLines (block : Str) : List Line := (lines block).filterMap logicalLine

/-- `key: value` to the key and the value, which is empty when a nested map or a list follows. -/
def splitKeyValue (content : Str) : Option (Str × Str) :=
  match splitOnce ':' content with
  | none => none
  | some (key, rest) => if trim key = [] then none else some (trim key, trim rest)

/-- `v` is wrapped in the quote `q`. -/
def quotedBy (q : Char) (v : Str) : Bool :=
  decide (2 ≤ v.length) && v.head? == some q && v.getLast? == some q

/-- A trimmed value without one pair of surrounding quotes. -/
def unquote (value : Str) : Str :=
  let v := trim value
  if quotedBy '"' v then v.tail.dropLast
  else if quotedBy '\'' v then v.tail.dropLast
  else v

/-- The spellings of an absent value. -/
def isNull (value : Str) : Bool :=
  decide (value = "null".toList ∨ value = "~".toList ∨ value = [])

/-- `[a, b, c]` to its trimmed, unquoted, non-empty items. -/
def parseInlineList (value : Str) : Option (List Str) := do
  let inner ← stripPrefix value ['[']
  let inner ← stripSuffix inner [']']
  if trim inner = [] then some []
  else some (((split ',' inner).map fun item => unquote (trim item)).filter (· ≠ []))

/-- A decimal digit of ASCII. -/
def isAsciiDigit (c : Char) : Bool := decide ('0' ≤ c ∧ c ≤ '9')

/-- The digits of `raw` as a 32-bit number. -/
def parseTokens (raw : Str) : Option ℕ :=
  let digits := raw.filter isAsciiDigit
  if digits = [] then none
  else
    let n := digits.foldl (fun n c => 10 * n + (c.toNat - '0'.toNat)) 0
    if n < 2 ^ 32 then some n else none

/-- A value, or none for `null`. -/
def optString (value : Str) : Option Str := if isNull value then none else some value

/-- A list given by one bare value. -/
def singleItem (value : Str) : List Str := if isNull value then [] else [value]

/-! ### Fields -/

/-- Set the field `key` of the provenance. -/
def applyProvenanceField (prov : Provenance) (key value : Str) : Provenance :=
  if key = "actor".toList then { prov with actor := optString value }
  else if key = "session".toList then { prov with session := optString value }
  else if key = "source".toList then { prov with source := (optString value).map SourceKind.parse }
  else prov

/-- Set a field given inline.  An unknown key is skipped: fields are additive. -/
def applyScalarValue (acc : Frontmatter × List Warning) (key value : Str) :
    Frontmatter × List Warning :=
  let (fm, warnings) := acc
  let unquoted := unquote value
  if key = "title".toList then ({ fm with title := optString unquoted }, warnings)
  else if key = "type".toList then
    ({ fm with itemType := (optString unquoted).map ItemType.parse }, warnings)
  else if key = "scope".toList then
    ({ fm with scope := (optString unquoted).map Scope.parse }, warnings)
  else if key = "workspace".toList then ({ fm with workspace := optString unquoted }, warnings)
  else if key = "visibility".toList then
    ({ fm with visibility := (optString unquoted).map Visibility.parse }, warnings)
  else if key = "confidence".toList then
    ({ fm with confidence := (optString unquoted).map Confidence.parse }, warnings)
  else if key = "expires".toList then ({ fm with expires := optString unquoted }, warnings)
  else if key = "updated".toList then ({ fm with updated := optString unquoted }, warnings)
  else if key = "tokens".toList then
    if isNull unquoted then ({ fm with tokensRaw := none, tokens := none }, warnings)
    else ({ fm with tokensRaw := some unquoted, tokens := parseTokens unquoted }, warnings)
  else if key = "tags".toList then
    ({ fm with tags := (parseInlineList unquoted).getD (singleItem unquoted) }, warnings)
  else if key = "refs".toList then
    ({ fm with refs := (parseInlineList unquoted).getD (singleItem unquoted) }, warnings)
  else if key = "actor".toList ∨ key = "session".toList ∨ key = "source".toList then
    -- a provenance field with its indentation lost is captured all the same
    ({ fm with provenance := applyProvenanceField fm.provenance key unquoted },
      warnings ++ [.topLevelProvenance key])
  else (fm, warnings)

/-- One child line of `provenance:`. -/
def applyProvenanceChild (acc : Frontmatter × List Warning) (child : Line) :
    Frontmatter × List Warning :=
  match splitKeyValue child.content with
  | some (k, v) =>
    ({ acc.1 with provenance := applyProvenanceField acc.1.provenance k (unquote v) }, acc.2)
  | none => (acc.1, acc.2 ++ [.malformedProvenance child.content])

/-- The items of a block list. -/
def blockItems (children : List Line) : List Str :=
  ((children.filterMap fun child => stripPrefix child.content ['-']).map
    fun item => unquote (trim item)).filter (· ≠ [])

/-- Set a field given by the lines indented under its key. -/
def applyBlockValue (acc : Frontmatter × List Warning) (key : Str) (children : List Line) :
    Frontmatter × List Warning :=
  if key = "provenance".toList then children.foldl applyProvenanceChild acc
  else if key = "tags".toList then ({ acc.1 with tags := blockItems children }, acc.2)
  else if key = "refs".toList then ({ acc.1 with refs := blockItems children }, acc.2)
  else acc

/-! ### The parser -/

/-- The loop of `parseBlock`; `fuel` bounds the number of lines left. -/
def parseBlockLoop : ℕ → List Line → Frontmatter × List Warning → Frontmatter × List Warning
  | 0, _, acc => acc
  | _ + 1, [], acc => acc
  | fuel + 1, line :: rest, acc =>
    if line.indent ≠ 0 then
      -- a stray indented line with no owning key
      parseBlockLoop fuel rest (acc.1, acc.2 ++ [.unexpectedIndented line.content])
    else match splitKeyValue line.content with
      | none => parseBlockLoop fuel rest (acc.1, acc.2 ++ [.noKey line.content])
      | some (key, value) =>
        if value = [] then
          parseBlockLoop fuel (rest.dropWhile fun l => 0 < l.indent)
            (applyBlockValue acc key (rest.takeWhile fun l => 0 < l.indent))
        else parseBlockLoop fuel rest (applyScalarValue acc key value)

/-- The logical lines of a block to a frontmatter. -/
def parseLines (ls : List Line) (acc : Frontmatter × List Warning) : Frontmatter × List Warning :=
  parseBlockLoop ls.length ls acc

/-- A block to a frontmatter. -/
def parseBlock (block : Str) : Frontmatter × List Warning :=
  parseLines (logicalLines block) (default, [])

/-- Parse a markdown file's leading frontmatter block, if any. -/
def parse (input : Str) : ParseResult :=
  match stripOpeningDelimiter input with
  | none => ⟨default, input, []⟩
  | some afterOpen => match splitAtClosingDelimiter afterOpen with
    | none => ⟨default, input, [.unterminated]⟩
    | some (block, body) => ⟨(parseBlock block).1, body, (parseBlock block).2⟩

theorem isDelimiterLine_cons {c : Char} (hws : isWhitespace c = false) (hc : c ≠ '-') (l : Str) :
    isDelimiterLine (c :: l) = false := by
  have hend : decide (c = '\n' ∨ c = '\r') = false := by
    rw [decide_eq_false_iff_not]
    rintro (rfl | rfl) <;> exact absurd hws (by decide)
  obtain ⟨r, hr⟩ := exists_rdropWhile_cons (p := fun c => decide (c = '\n' ∨ c = '\r')) hend l
  obtain ⟨r', hr'⟩ := exists_rdropWhile_cons hws r
  rw [isDelimiterLine, hr, trim, trimStart, List.dropWhile_cons_of_neg (by simp [hws]), trimEnd, hr',
    decide_eq_false_iff_not]
  exact fun h => hc (List.cons.inj h).1

theorem parse_cons {c : Char} (hws : isWhitespace c = false) (hc : c ≠ '-') (hlf : c ≠ '\n')
    (s : Str) : parse (c :: s) = ⟨default, c :: s, []⟩ := by
  have hstrip : stripOpeningDelimiter (c :: s) = none := by
    rw [stripOpeningDelimiter, splitInclusive, if_neg hlf]
    cases splitInclusive s with
    | nil => simp [isDelimiterLine_cons hws hc]
    | cons l ls => simp [isDelimiterLine_cons hws hc]
  rw [parse, hstrip]

/-! ### The serializer -/

/-- The line `key: value`. -/
def keyLine (key : String) (value : Str) : Str := key.toList ++ ": ".toList ++ value

/-- The lines of an optional field. -/
def optLine (key : String) (value : Option Str) : List Str :=
  (value.map (keyLine key)).toList

/-- The lines of `provenance:`. -/
def provenanceLines (T : CharTables) (prov : Provenance) : List Str :=
  if prov.actor.isSome ∨ prov.session.isSome ∨ prov.source.isSome then
    "provenance:".toList ::
      (optLine "  actor" (prov.actor.map (debug T)) ++
        optLine "  session" (prov.session.map (debug T)) ++
        optLine "  source" (prov.source.map SourceKind.display))
  else []

/-- The line of a list field, absent when the list is empty. -/
def listLine (key : String) (items : List Str) : List Str :=
  if items = [] then [] else [keyLine key ('[' :: (join ", ".toList items ++ [']']))]

/-- A number in decimal. -/
def decimal (n : ℕ) : Str := (Nat.repr n).toList

theorem isDigit_of_mem_decimal {n : ℕ} {c : Char} (h : c ∈ decimal n) : c.isDigit = true := by
  rw [decimal, Nat.toList_repr] at h
  exact Nat.isDigit_of_mem_toDigits (by decide) (by decide) h

/-- The text after `tokens:`. -/
def tokensText (fm : Frontmatter) : Option Str := fm.tokensRaw.or (fm.tokens.map decimal)

/-- The lines between the two delimiters. -/
def renderLines (T : CharTables) (fm : Frontmatter) : List Str :=
  optLine "title" (fm.title.map (debug T)) ++
  optLine "type" (fm.itemType.map ItemType.display) ++
  optLine "scope" (fm.scope.map Scope.display) ++
  optLine "workspace" fm.workspace ++
  optLine "visibility" (fm.visibility.map Visibility.display) ++
  provenanceLines T fm.provenance ++
  optLine "confidence" (fm.confidence.map Confidence.display) ++
  optLine "expires" (fm.expires.map (debug T)) ++
  optLine "tokens" fm.tokensText ++
  listLine "tags" fm.tags ++
  listLine "refs" fm.refs ++
  optLine "updated" (fm.updated.map (debug T))

/-- Serialize a frontmatter into the block that `parse` reads. -/
def render (T : CharTables) (fm : Frontmatter) : Str :=
  "---\n".toList ++ (renderLines T fm).flatMap (· ++ ['\n']) ++ "---\n".toList

end Frontmatter

end Wkp
