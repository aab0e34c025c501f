import Wkp.Lib.Regex
import Mathlib.Algebra.Order.Ring.Rat

/-!
# The secret scanner

The four rules that a text is scanned with before it is written.

* `Secrets.rules` : the rules, each a pattern and possibly a bound on the entropy of what it captures.
* `Secrets.scan` : the findings in a text.
* `Secrets.scan_framed` : a text after a closing fence line is scanned on its own.
-/

namespace Wkp

open Rust

namespace Secrets

/-- What the scanner takes from the libraries it is built with. -/
structure Scanner where
  /-- The characters of words (`\w`). -/
  word : Char → Bool
  /-- Whitespace is not in words. -/
  space : ∀ c, isWhitespace c = true → word c = false
  /-- In ASCII only letters, digits and the underscore are. -/
  ascii : ∀ c : Char, c.toNat < 128 → word c = (c.isAlphanum || c == '_')
  /-- The entropy of a text in bits for each character (`shannon_entropy`). -/
  entropy : Str → ℚ

/-- A scanner for texts in ASCII in which no assignment looks random. -/
def Scanner.plain : Scanner where
  word c := c.isAlphanum || c == '_'
  space c hc := by
    rw [isAlphanum_of_isWhitespace hc, Bool.false_or, beq_eq_false_iff_ne]
    rintro rfl
    exact absurd hc (by decide)
  ascii _ _ := rfl
  entropy _ := 0

/-- A rule. -/
structure Rule where
  /-- Its name. -/
  name : Str
  /-- What it matches. -/
  pattern : Regex
  /-- The least entropy of what is captured. -/
  minEntropy : Option ℚ := none

/-! ### The rules -/

/-- `[A-Za-z]`. -/
def letters : CharClass := [('A', 'Z'), ('a', 'z')]

/-- `[0-9]`. -/
def digits : CharClass := [('0', '9')]

/-- `['"]`. -/
def quotes : CharClass := [('\'', '\''), ('"', '"')]

/-- A letter in either case; the long s and the Kelvin sign fold to `s` and `k`. -/
def caseless (c : Char) : CharClass :=
  [(c, c), (c.toUpper, c.toUpper)] ++ (if c = 's' then [('\u017f', '\u017f')] else []) ++
    if c = 'k' then [('\u212a', '\u212a')] else []

/-- A text of lower case letters in either case. -/
def caselessText (s : Str) : Regex := .sequence (s.map fun c => .oneOf (caseless c))

/-- `\s*[:=]\s*`. -/
def assignment : Regex :=
  .sequence [.many .space 0 none, .oneOf [(':', ':'), ('=', '=')], .many .space 0 none]

/-- An AWS access key. -/
def awsAccessKeyId : Rule where
  name := "aws-access-key-id".toList
  pattern := .sequence [.boundary, .oneOfTexts ["AKIA".toList, "ASIA".toList],
    .many (digits ++ [('A', 'Z')]) 16 (some 16), .boundary]

/-- The header of a private key. -/
def privateKeyPemHeader : Rule where
  name := "private-key-pem-header".toList
  pattern := .sequence [.literal "-----BEGIN ".toList,
    .optional (.oneOfTexts ["RSA ".toList, "EC ".toList, "OPENSSH ".toList, "DSA ".toList,
      "ENCRYPTED ".toList]),
    .literal "PRIVATE KEY-----".toList]

/-- A value given to something that is named as a secret. -/
def genericApiKey : Rule where
  name := "generic-api-key".toList
  pattern := .sequence [.boundary,
    .alt (.sequence [caselessText "api".toList, .optional (.oneOf [('_', '_'), ('-', '-')]),
        caselessText "key".toList])
      (.alt (caselessText "secret".toList) (.alt (caselessText "token".toList)
        (.alt (caselessText "passwd".toList) (caselessText "password".toList)))),
    .boundary, assignment, .optional (.oneOf quotes),
    .group (.many (letters ++ [('\u017f', '\u017f'), ('\u212a', '\u212a')] ++ digits ++
      [('_', '_'), ('/', '/'), ('+', '+'), ('.', '.'), ('=', '='), ('-', '-')]) 16 (some 100)),
    .optional (.oneOf quotes)]

/-- A value that looks random, given to anything. -/
def highEntropyAssignment : Rule where
  name := "high-entropy-assignment".toList
  pattern := .sequence [.boundary, .oneOf (letters ++ [('_', '_')]),
    .many (letters ++ digits ++ [('_', '_')]) 2 (some 40), assignment, .oneOf quotes,
    .group (.many (letters ++ digits ++
      [('+', '+'), ('/', '/'), ('=', '='), ('_', '_'), ('-', '-')]) 20 (some 100)),
    .oneOf quotes]
  minEntropy := some (7 / 2)

/-- The rules. -/
def rules : List Rule :=
  [awsAccessKeyId, privateKeyPemHeader, genericApiKey, highEntropyAssignment]

/-! ### Scanning -/

/-- A match of a rule. -/
structure Finding where
  /-- The name of the rule. -/
  rule : Str
  /-- The bytes before it. -/
  start : ℕ
  /-- The bytes up to its end. -/
  «end» : ℕ
  /-- The text around it, without it. -/
  redactedExcerpt : Str
  deriving DecidableEq

/-- The characters at the start of a text that have `n` bytes at least, and no more than needed. -/
def coverBytes : ℕ → Str → Str
  | 0, _ => []
  | _ + 1, [] => []
  | n + 1, c :: s => c :: coverBytes (n + 1 - c.utf8Size) s

/-- How much of the text around a finding is shown. -/
def contextBytes : ℕ := 20

/-- The text around a match, without it. -/
def redactedExcerpt (m : Regex.Match) : Str :=
  (coverBytes contextBytes m.before.reverse).reverse ++ "«redacted»".toList ++
    coverBytes contextBytes m.after

variable (S : Scanner)

/-- A match is no finding: too little entropy is in what it captures. -/
def Rule.dismisses (rule : Rule) (what : Str × Option Str) : Bool :=
  match rule.minEntropy, what.2 with
  | none, _ => false
  | some _, none => true
  | some least, some value => S.entropy value < least

/-- What a match of a rule is reported as. -/
def Rule.finding (rule : Rule) (m : Regex.Match) : Option Finding :=
  if rule.dismisses S m.what then none
  else some
    { rule := rule.name, start := byteLength m.before,
      «end» := byteLength m.before + byteLength m.text, redactedExcerpt := redactedExcerpt m }

/-- The findings in a text. -/
def scan (content : Str) : List Finding :=
  rules.flatMap fun rule =>
    (Regex.findIter S.word rule.pattern [] 0 content).filterMap (rule.finding S)

/-! ### What is found -/

variable {S}

/-- The matches of a rule, without their places. -/
def Rule.matched (S : Scanner) (rule : Rule) (content : Str) : List (Str × Option Str) :=
  (Regex.findIter S.word rule.pattern [] 0 content).map Regex.Match.what

theorem scan_eq_nil_iff {content : Str} : scan S content = [] ↔
    ∀ rule ∈ rules, ∀ what ∈ rule.matched S content, rule.dismisses S what = true := by
  rw [scan, List.flatMap_eq_nil_iff]
  refine forall₂_congr fun rule _ => ?_
  rw [List.filterMap_eq_nil_iff, Rule.matched, List.forall_mem_map]
  refine forall₂_congr fun m _ => ?_
  rw [Rule.finding]
  split_ifs with h
  · exact ⟨fun _ => h, fun _ => rfl⟩
  · exact ⟨nofun, fun h' => absurd h' h⟩

/-- What the rules have in common: a match is not empty, does not begin or end with whitespace, and
holds no line that ends in a dash. -/
theorem rules_local : ∀ rule ∈ rules, rule.pattern.nullable = false ∧
    (rule.pattern.firsts ++ rule.pattern.lasts).all (fun k => CharClass.space.disjoint k) = true ∧
    rule.pattern.follows.all (fun kk => !(kk.1.holds '-' && kk.2.holds '\n')) = true := by
  decide +kernel

theorem holds_space_of_isWhitespace {c : Char} (h : isWhitespace c = true) :
    CharClass.space.holds c = true := by
  simp only [isWhitespace, Bool.or_eq_true, Bool.and_eq_true, decide_eq_true_eq, beq_iff_eq] at h
  simp only [CharClass.space, CharClass.holds, List.any_cons, List.any_nil, Bool.or_eq_true,
    Bool.and_eq_true, decide_eq_true_eq, Bool.false_eq_true, or_false]
  change 9 ≤ c.toNat ∧ c.toNat ≤ 13 ∨ 32 ≤ c.toNat ∧ c.toNat ≤ 32 ∨
    133 ≤ c.toNat ∧ c.toNat ≤ 133 ∨ 160 ≤ c.toNat ∧ c.toNat ≤ 160 ∨
    5760 ≤ c.toNat ∧ c.toNat ≤ 5760 ∨ 8192 ≤ c.toNat ∧ c.toNat ≤ 8202 ∨
    8232 ≤ c.toNat ∧ c.toNat ≤ 8233 ∨ 8239 ≤ c.toNat ∧ c.toNat ≤ 8239 ∨
    8287 ≤ c.toNat ∧ c.toNat ≤ 8287 ∨ 12288 ≤ c.toNat ∧ c.toNat ≤ 12288
  omega

theorem not_inSome_of_isWhitespace {rule : Rule} (h : rule ∈ rules) {c : Char}
    (hc : isWhitespace c = true) :
    Regex.inSome rule.pattern.firsts c = false ∧ Regex.inSome rule.pattern.lasts c = false := by
  have hdisj := List.all_eq_true.1 (rules_local rule h).2.1
  have hnone : ∀ k ∈ rule.pattern.firsts ++ rule.pattern.lasts, k.holds c = false := fun k hk =>
    CharClass.holds_eq_false_of_disjoint (hdisj k hk) (holds_space_of_isWhitespace hc)
  constructor <;> rw [Regex.inSome, List.any_eq_false]
  · exact fun k hk => Bool.eq_false_iff.1 (hnone k (List.mem_append_left _ hk))
  · exact fun k hk => Bool.eq_false_iff.1 (hnone k (List.mem_append_right _ hk))

theorem any_word_of_all {w : Str} (hw : ∀ c ∈ w, isWhitespace c = true) {o : Option Char}
    (ho : ∀ c ∈ o, c ∈ w) : o.any S.word = false := by
  cases o with
  | none => rfl
  | some c => exact S.space c (hw c (ho c rfl))

/-- The matches in a text with whitespace around it are those in the text. -/
theorem findIter_padded {rule : Rule} (h : rule ∈ rules) {w w' : Str}
    (hw : ∀ c ∈ w, isWhitespace c = true) (hw' : ∀ c ∈ w', isWhitespace c = true) {before : Str}
    (hbefore : before.getLast?.any S.word = false) (s : Str) :
    (Regex.findIter S.word rule.pattern before 0 (w ++ (s ++ w'))).map Regex.Match.what =
      rule.matched S s := by
  have hn := (rules_local rule h).1
  have hfirsts : ∀ {w : Str}, (∀ c ∈ w, isWhitespace c = true) →
      ∀ c ∈ w, Regex.inSome rule.pattern.firsts c = false :=
    fun hw c hc => (not_inSome_of_isWhitespace h (hw c hc)).1
  have hstays : Regex.Stays S.word rule.pattern s w' :=
    Regex.stays_of_lasts (fun c hc => (not_inSome_of_isWhitespace h (hw' c hc)).2) s
  have hnext : w'.head?.any S.word = false :=
    any_word_of_all hw' fun c hc => List.mem_of_mem_head? hc
  have hprev : (before ++ w).getLast?.any S.word = ([] : Str).getLast?.any S.word := by
    rw [List.getLast?_append]
    cases hl : w.getLast? with
    | none => exact hbefore
    | some c => exact S.space c (hw c (List.mem_of_mem_getLast? hl))
  have hnil : Regex.findIter S.word rule.pattern (before ++ w ++ s) 0 w' = [] := by
    rw [← List.append_nil w', Regex.findIter_append_of_firsts hn (hfirsts hw'),
      Regex.findIter_nil hn]
  rw [Regex.findIter_append_of_firsts hn (hfirsts hw),
    Regex.findIter_append hn hstays hnext _ (Nat.zero_le _), hnil, List.map_nil, List.append_nil]
  exact Regex.findIter_congr hprev _ _ _

theorem matched_dash {rule : Rule} (h : rule ∈ rules) (block : Str) {w w' : Str}
    (hw : ∀ c ∈ w, isWhitespace c = true) (hw' : ∀ c ∈ w', isWhitespace c = true) (s : Str) :
    rule.matched S (block ++ ['-'] ++ '\n' :: (w ++ (s ++ w'))) =
      rule.matched S (block ++ ['-']) ++ rule.matched S s := by
  obtain ⟨hn, -, hfollows⟩ := rules_local rule h
  have hapart : ∀ kk ∈ rule.pattern.follows, (kk.1.holds '-' && kk.2.holds '\n') = false :=
    fun kk hkk => by
      have hkk := List.all_eq_true.1 hfollows kk hkk
      rwa [Bool.not_eq_true'] at hkk
  have hstays : Regex.Stays S.word rule.pattern (block ++ ['-']) ('\n' :: (w ++ (s ++ w'))) :=
    Regex.stays_of_follows hapart block (w ++ (s ++ w'))
  have hlf : S.word '\n' = false := S.space _ (by decide)
  have hdash : S.word '-' = false := by
    rw [S.ascii _ (by decide)]
    decide
  have hlast : (block ++ ['-']).getLast?.any S.word = false := by
    rw [List.getLast?_concat]
    exact hdash
  have hw₁ : ∀ c ∈ '\n' :: w, isWhitespace c = true := List.forall_mem_cons.2 ⟨by decide, hw⟩
  rw [Rule.matched, Regex.findIter_append hn hstays hlf _ (Nat.zero_le _), List.nil_append]
  exact congrArg _ (findIter_padded h hw₁ hw' hlast s)

/-- **A text after a line that ends in a dash is scanned on its own**, whatever whitespace is around
it. -/
theorem scan_framed (block body : Str) {w w' : Str} (hw : ∀ c ∈ w, isWhitespace c = true)
    (hw' : ∀ c ∈ w', isWhitespace c = true) :
    scan S (block ++ ['-'] ++ '\n' :: (w ++ (body ++ w'))) = [] ↔
      scan S (block ++ ['-'] ++ ['\n']) = [] ∧ scan S body = [] := by
  have hblock : ∀ rule ∈ rules, rule.matched S (block ++ ['-'] ++ ['\n']) =
      rule.matched S (block ++ ['-']) := by
    intro rule hrule
    have hnil : rule.matched S [] = [] := by
      rw [Rule.matched, Regex.findIter_nil (rules_local rule hrule).1, List.map_nil]
    have hspace : ∀ c ∈ ([] : Str), isWhitespace c = true := List.forall_mem_nil _
    have hend := matched_dash (S := S) hrule block hspace hspace []
    rw [hnil] at hend
    exact hend.trans (List.append_nil _)
  rw [scan_eq_nil_iff, scan_eq_nil_iff, scan_eq_nil_iff, ← forall₂_and]
  refine forall₂_congr fun rule hrule => ?_
  rw [matched_dash hrule block hw hw', List.forall_mem_append, hblock rule hrule]

theorem scan_trim (s : Str) : scan S (trim s) = [] ↔ scan S s = [] := by
  obtain ⟨w, w', hs, hw, hw'⟩ := exists_eq_append_trim s
  rw [scan_eq_nil_iff, scan_eq_nil_iff]
  refine forall₂_congr fun rule hrule => ?_
  have hpad : rule.matched S (w ++ (trim s ++ w')) = rule.matched S (trim s) :=
    findIter_padded hrule hw hw' rfl (trim s)
  rw [← hpad, ← hs]

end Secrets

end Wkp
