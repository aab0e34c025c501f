import Wkp.Core.Calendar
import Wkp.Core.Expiry
import Wkp.Lib.Path

/-!
# The gate as a rule on path components

The tier of an item is documented as a rule on the directories of its path, on whether its last
commit is signed by a human, on its expiry date and on its type.  The code reads the directories and
the date as texts.

* `Tier.ByRule` : the documented rule.
* `Tier.ruled_iff` : when the code follows the rule.
-/

namespace Wkp

open Rust

namespace Tier

/-! ### The rule -/

/-- The expiry date is well formed and earlier than today. -/
def PastDate (today : ℕ) (expires : Option Str) : Prop :=
  ∃ date, Index.ExpiresOn expires date ∧ date < civilFromDays today

/-- The first component of the path is `user`, or one of its directories is `projects` and is
followed by another. -/
def Scoped (path : Str) : Prop :=
  (split '/' path).head? = some "user".toList ∨
    ∃ above name below, Path.directories path = above ++ "projects".toList :: name :: below

/-- An item of the type is injected, an instruction only where it is scoped. -/
def Injected (inScope : Prop) : Option ItemType → Prop
  | some .instruction => inScope
  | some .projectState | some .feedback | some .knowledge => True
  | _ => False

/-- A reviewed item outside the inboxes that is not past its date. -/
def Open (today : ℕ) (path : Str) (fm : Frontmatter) (humanSigned : Bool) : Prop :=
  humanSigned = true ∧ "inbox".toList ∉ Path.directories path ∧ ¬ PastDate today fm.expires

/-- The tier is the one of the rule. -/
structure ByRule (today : ℕ) (path : Str) (fm : Frontmatter) (humanSigned : Bool) (tier : ℕ) :
    Prop where
  /-- Below 2 is what is open and injected. -/
  below : tier < 2 ↔ Open today path fm humanSigned ∧ Injected (Scoped path) fm.itemType
  /-- Tier 0 is for project states and scoped instructions. -/
  zero : tier = 0 ↔ Open today path fm humanSigned ∧
    (fm.itemType = some .projectState ∨ fm.itemType = some .instruction ∧ Scoped path)
  /-- Tier 1 is for feedback and knowledge. -/
  one : tier = 1 ↔ Open today path fm humanSigned ∧
    (fm.itemType = some .feedback ∨ fm.itemType = some .knowledge)

/-- There is a tier, and it is the one of the rule. -/
def Ruled (today : ℕ) (path : Str) (fm : Frontmatter) (humanSigned : Bool) : Prop :=
  ∃ tier, computeTier today path fm humanSigned = some tier ∧ ByRule today path fm humanSigned tier

/-! ### What the code reads -/

/-- The tenth byte of the expiry date ends a character, if it has ten. -/
def Sliceable (expires : Option Str) : Prop :=
  ∀ e ∈ expires, 10 ≤ byteLength e → (takeBytes 10 e).isSome

/-- The first ten bytes of the expiry date sort before the text of today. -/
def SortsBefore (today : ℕ) (expires : Option Str) : Prop :=
  ∃ e ∈ expires, 10 ≤ byteLength e ∧ ∃ head ∈ takeBytes 10 e, head < todayIsoDate today

/-- The first directory is `user`, or one ends in `projects`. -/
def Matched (path : Str) : Prop :=
  (Path.directories path).head? = some "user".toList ∨
    ∃ d ∈ Path.directories path, "projects".toList <:+ d

/-- The ways in which an open item is misread. -/
inductive Misread (today : ℕ) (path : Str) (fm : Frontmatter) : Prop
  /-- Slicing the expiry date panics. -/
  | unsliceable (hdate : ¬ Sliceable fm.expires)
  /-- An expiry date that is not well formed sorts before today. -/
  | garbled (hdate : ¬ ∃ date, Index.ExpiresOn fm.expires date)
      (hsorts : SortsBefore today fm.expires) (hrule : Injected (Scoped path) fm.itemType)
  /-- From the year 10000 on a date of the past need not sort before today. -/
  | longYear (hyear : 9999 < (civilFromDays today).year)
      (hdate : ∃ date, Index.ExpiresOn fm.expires date)
      (hsorts : ¬ SortsBefore today fm.expires) (hcode : Injected (Matched path) fm.itemType)
  /-- An instruction lies in no project, but in a directory whose name ends in `projects`. -/
  | nearby (htype : fm.itemType = some .instruction) (hpath : ¬ Scoped path)
      (hmatch : Matched path) (hsorts : ¬ SortsBefore today fm.expires)
  /-- An instruction is the file `user` itself. -/
  | userFile (htype : fm.itemType = some .instruction) (hpath : path = "user".toList)
      (hdate : ¬ PastDate today fm.expires)

/-! ### The readings of the code -/

theorem inInbox_iff (path : Str) :
    inInbox path = true ↔ "inbox".toList ∈ Path.directories path := by
  rw [← Path.infix_iff_mem_directories (by decide), List.infix_cons_iff, List.cons_prefix_cons,
    inInbox, Bool.or_eq_true, decide_eq_true_iff, isSome_stripPrefix_iff]
  exact or_congr_left (and_iff_right rfl).symm

theorem matched_iff (path : Str) :
    ((stripPrefix path "user/".toList).isSome ∨ "projects/".toList <:+: path) ↔ Matched path := by
  rw [Matched, ← Path.prefix_iff_head_directories (by decide),
    ← Path.infix_iff_suffix_directory (by decide), isSome_stripPrefix_iff]
  rfl

/-- What is scoped is read as such, unless it is the file `user`. -/
theorem Scoped.matched {path : Str} (h : Scoped path) : Matched path ∨ path = "user".toList := by
  rcases h with h | ⟨above, name, below, h⟩
  · cases hs : split '/' path with
    | nil => exact absurd hs (List.splitOn_ne_nil _ _)
    | cons first rest =>
      obtain rfl : first = "user".toList := by rw [hs] at h; exact Option.some.inj h
      cases rest with
      | nil =>
        have hjoin : Rust.join ['/'] (split '/' path) = path := List.intercalate_splitOn '/'
        rw [hs, join, List.intercalate_singleton] at hjoin
        exact .inr hjoin.symm
      | cons second rest => exact .inl (.inl (by rw [Path.directories, hs]; rfl))
  · exact .inl (.inr ⟨"projects".toList, by rw [h]; simp, List.suffix_rfl⟩)

theorem typeTier_eq_zero_iff (path : Str) (type : Option ItemType) :
    typeTier path type = 0 ↔
      type = some .projectState ∨ type = some .instruction ∧ Matched path := by
  rw [typeTier.eq_def]
  split
  · rw [ite_eq_left_iff, matched_iff]
    simp
  all_goals simp_all

theorem typeTier_eq_one_iff (path : Str) (type : Option ItemType) :
    typeTier path type = 1 ↔ type = some .feedback ∨ type = some .knowledge := by
  rw [typeTier.eq_def]
  split
  · split_ifs <;> simp
  all_goals simp_all

theorem injected_iff (inScope : Prop) (type : Option ItemType) : Injected inScope type ↔
    (type = some .projectState ∨ type = some .instruction ∧ inScope) ∨
      (type = some .feedback ∨ type = some .knowledge) := by
  rw [Injected.eq_def]
  split <;> simp_all

theorem typeTier_lt_two_iff (path : Str) (type : Option ItemType) :
    typeTier path type < 2 ↔ Injected (Matched path) type := by
  rw [injected_iff, ← typeTier_eq_zero_iff, ← typeTier_eq_one_iff path]
  omega

theorem sortsBefore_iff {today : ℕ} {expires : Option Str} {date : Date}
    (h : Index.ExpiresOn expires date) :
    SortsBefore today expires ↔ isoDate date < todayIsoDate today := by
  obtain ⟨hvalid, rfl⟩ := h
  obtain ⟨hlen, hascii⟩ := isoDate_ascii hvalid
  have hhead := takeBytes_of_ascii hascii
  rw [hlen] at hhead
  have hbytes := byteLength_of_ascii hascii
  simp [SortsBefore, hhead, hbytes, hlen]

/-- The text of a date in the past sorts before today, up to the year 9999. -/
theorem sortsBefore_of_pastDate {today : ℕ} {expires : Option Str}
    (hyear : (civilFromDays today).year ≤ 9999) (h : PastDate today expires) :
    SortsBefore today expires := by
  obtain ⟨date, hdate, hlt⟩ := h
  rw [sortsBefore_iff hdate]
  exact (isoDate_lt_iff hdate.1 (valid_civilFromDays hyear)).2 hlt

theorem pastDate_of_sortsBefore {today : ℕ} {expires : Option Str} {date : Date}
    (hdate : Index.ExpiresOn expires date) (h : SortsBefore today expires) :
    PastDate today expires := by
  refine ⟨date, hdate, ?_⟩
  by_cases hyear : (civilFromDays today).year ≤ 9999
  · exact (isoDate_lt_iff hdate.1 (valid_civilFromDays hyear)).1 ((sortsBefore_iff hdate).1 h)
  · -- every date that can be written is before the year 10000
    have := hdate.1.1.2
    exact .inl (by omega)

theorem pastDate_of_lt_year {today : ℕ} {expires : Option Str} {date : Date}
    (hdate : Index.ExpiresOn expires date) (hyear : 9999 < (civilFromDays today).year) :
    PastDate today expires :=
  ⟨date, hdate, .inl (hdate.1.1.2.trans_lt hyear)⟩

/-- The verdict on an expiry date, from its first ten bytes. -/
theorem isExpired_iff (today : ℕ) (e : Str) (expired : Bool) : isExpired today e = some expired ↔
    Sliceable (some e) ∧ (expired = true ↔ SortsBefore today (some e)) := by
  rw [isExpired]
  by_cases hlen : byteLength e < 10
  · have hlen' : ¬ 10 ≤ byteLength e := by omega
    rw [if_pos hlen]
    cases expired <;> simp [Sliceable, SortsBefore, hlen']
  · have hlen' : 10 ≤ byteLength e := by omega
    rw [if_neg hlen]
    cases hhead : takeBytes 10 e with
    | none => simp [Sliceable, hlen', hhead]
    | some head => cases expired <;> simp [Sliceable, SortsBefore, hlen', hhead]

theorem computeTier_signed {today : ℕ} {path : Str} {fm : Frontmatter}
    (hin : "inbox".toList ∉ Path.directories path) (tier : ℕ) :
    computeTier today path fm true = some tier ↔ Sliceable fm.expires ∧
      (SortsBefore today fm.expires ∧ tier = 2 ∨
        ¬ SortsBefore today fm.expires ∧ tier = typeTier path fm.itemType) := by
  rw [computeTier, if_neg (by rwa [inInbox_iff]), if_neg (by decide), Option.map_eq_some_iff]
  cases fm.expires with
  | none =>
    have hslice : Sliceable none := by rintro e ⟨⟩
    have hsorts : ¬ SortsBefore today none := by rintro ⟨e, ⟨⟩, -⟩
    simp [hslice, hsorts, eq_comm]
  | some e =>
    simp only [isExpired_iff]
    constructor
    · rintro ⟨expired, ⟨hslice, hexp⟩, rfl⟩
      refine ⟨hslice, ?_⟩
      cases expired with
      | false => exact .inr ⟨fun hsorts => Bool.false_ne_true (hexp.2 hsorts), rfl⟩
      | true => exact .inl ⟨hexp.1 rfl, rfl⟩
    · rintro ⟨hslice, ⟨hsorts, rfl⟩ | ⟨hsorts, rfl⟩⟩
      · exact ⟨true, ⟨hslice, iff_of_true rfl hsorts⟩, rfl⟩
      · exact ⟨false, ⟨hslice, iff_of_false Bool.false_ne_true hsorts⟩, rfl⟩

theorem computeTier_closed {today : ℕ} {path : Str} {fm : Frontmatter} {humanSigned : Bool}
    (h : humanSigned = false ∨ "inbox".toList ∈ Path.directories path) :
    computeTier today path fm humanSigned = some 2 := by
  rw [computeTier]
  split_ifs with hin hs
  · rfl
  · rfl
  · rcases h with rfl | h
    · exact absurd rfl hs
    · exact absurd ((inInbox_iff path).2 h) hin

/-! ### The rule against the readings -/

theorem injected_and_not {a b : Prop} {type : Option ItemType} (ha : Injected a type)
    (hb : ¬ Injected b type) : type = some .instruction ∧ a ∧ ¬ b := by
  rw [injected_iff] at ha hb
  tauto

theorem injected_instruction {a : Prop} {type : Option ItemType} (h : type = some .instruction) :
    Injected a type ↔ a := by
  rw [h, Injected]

/-- Nothing is misread exactly when dates and types are read as the rule has them. -/
theorem not_misread_iff {today : ℕ} {path : Str} {fm : Frontmatter} : ¬ Misread today path fm ↔
    Sliceable fm.expires ∧
      (SortsBefore today fm.expires →
        ¬ (¬ PastDate today fm.expires ∧ Injected (Scoped path) fm.itemType)) ∧
      (¬ SortsBefore today fm.expires → (Injected (Matched path) fm.itemType ↔
        ¬ PastDate today fm.expires ∧ Injected (Scoped path) fm.itemType)) := by
  -- what the code and the rule decide differently has one of the five kinds
  constructor
  · intro h
    refine ⟨by_contra fun hslice => h (.unsliceable hslice), ?_, ?_⟩
    · rintro hsorts ⟨hpast, hrule⟩
      refine h (.garbled ?_ hsorts hrule)
      rintro ⟨date, hdate⟩
      exact hpast (pastDate_of_sortsBefore hdate hsorts)
    · intro hsorts
      constructor
      · intro hcode
        constructor
        · rintro hpast
          rcases le_or_gt (civilFromDays today).year 9999 with hyear | hyear
          · exact hsorts (sortsBefore_of_pastDate hyear hpast)
          · obtain ⟨date, hdate, -⟩ := hpast
            exact h (.longYear hyear ⟨date, hdate⟩ hsorts hcode)
        · by_contra hrule
          obtain ⟨htype, hmatch, hscope⟩ := injected_and_not hcode hrule
          exact h (.nearby htype hscope hmatch hsorts)
      · rintro ⟨hpast, hrule⟩
        by_contra hcode
        obtain ⟨htype, hscope, hmatch⟩ := injected_and_not hrule hcode
        exact h (.userFile htype (hscope.matched.resolve_left hmatch) hpast)
  · rintro ⟨hslice, hbefore, hafter⟩ hmis
    cases hmis with
    | unsliceable hdate => exact hdate hslice
    | garbled hdate hsorts hrule =>
      refine hbefore hsorts ⟨?_, hrule⟩
      rintro ⟨date, hdate', -⟩
      exact hdate ⟨date, hdate'⟩
    | longYear hyear hdate hsorts hcode =>
      obtain ⟨date, hdate⟩ := hdate
      exact ((hafter hsorts).1 hcode).1 (pastDate_of_lt_year hdate hyear)
    | nearby htype hpath hmatch hsorts =>
      rw [injected_instruction htype, injected_instruction htype] at hafter
      exact hpath ((hafter hsorts).1 hmatch).2
    | userFile htype hpath hdate =>
      subst hpath
      have hscope : Scoped "user".toList := .inl (by decide)
      have hmatch : ¬ Matched "user".toList := by
        rintro (h | ⟨d, hd, -⟩)
        · exact absurd h (by decide)
        · have hnone : Path.directories "user".toList = [] := by decide
          rw [hnone] at hd
          exact List.not_mem_nil hd
      rw [injected_instruction htype] at hbefore
      rw [injected_instruction htype, injected_instruction htype] at hafter
      by_cases hsorts : SortsBefore today fm.expires
      · exact hbefore hsorts ⟨hdate, hscope⟩
      · exact hmatch ((hafter hsorts).2 ⟨hdate, hscope⟩)

theorem byRule_two {today : ℕ} {path : Str} {fm : Frontmatter} {humanSigned : Bool} :
    ByRule today path fm humanSigned 2 ↔
      ¬ (Open today path fm humanSigned ∧ Injected (Scoped path) fm.itemType) := by
  constructor
  · intro h hrule
    exact absurd (h.below.2 hrule) (by decide)
  · intro h
    rw [injected_iff] at h
    refine ⟨?_, ?_, ?_⟩
    · rw [injected_iff]
      exact iff_of_false (by decide) h
    · exact iff_of_false (by decide) fun hr => h ⟨hr.1, .inl hr.2⟩
    · exact iff_of_false (by decide) fun hr => h ⟨hr.1, .inr hr.2⟩

theorem byRule_typeTier {today : ℕ} {path : Str} {fm : Frontmatter} {humanSigned : Bool} :
    ByRule today path fm humanSigned (typeTier path fm.itemType) ↔
      (Injected (Matched path) fm.itemType ↔
        Open today path fm humanSigned ∧ Injected (Scoped path) fm.itemType) := by
  constructor
  · intro h
    rw [← h.below, typeTier_lt_two_iff]
  · intro h
    refine ⟨by rw [typeTier_lt_two_iff, h], ?_, ?_⟩
    · rw [typeTier_eq_zero_iff]
      cases htype : fm.itemType with
      | none => simp
      | some type => rw [htype] at h; cases type <;> simp_all [injected_iff]
    · rw [typeTier_eq_one_iff]
      cases htype : fm.itemType with
      | none => simp
      | some type => rw [htype] at h; cases type <;> simp_all [injected_iff]

/-- **The tier is the one of the rule exactly when** the item is not signed, is in an inbox, or is
not misread. -/
theorem ruled_iff (today : ℕ) (path : Str) (fm : Frontmatter) (humanSigned : Bool) :
    Ruled today path fm humanSigned ↔
      (humanSigned = true → "inbox".toList ∉ Path.directories path → ¬ Misread today path fm) := by
  by_cases hclosed : humanSigned = false ∨ "inbox".toList ∈ Path.directories path
  · have hopen : ¬ Open today path fm humanSigned := by
      rintro ⟨hs, hin, -⟩
      rcases hclosed with h | h
      · exact Bool.false_ne_true (h.symm.trans hs)
      · exact hin h
    refine iff_of_true ⟨2, computeTier_closed hclosed, byRule_two.2 fun h => hopen h.1⟩ ?_
    rintro hs hin -
    rcases hclosed with h | h
    · exact Bool.false_ne_true (h.symm.trans hs)
    · exact hin h
  · obtain ⟨hs, hin⟩ := not_or.1 hclosed
    obtain rfl : humanSigned = true := by simpa using hs
    have hopen : Open today path fm true ↔ ¬ PastDate today fm.expires :=
      ⟨fun h => h.2.2, fun h => ⟨rfl, hin, h⟩⟩
    simp only [hin, not_false_eq_true, forall_true_left, not_misread_iff, ← hopen]
    simp only [Ruled, computeTier_signed hin]
    constructor
    · rintro ⟨tier, ⟨hslice, htier⟩, hrule⟩
      refine ⟨hslice, fun hsorts => ?_, fun hsorts => ?_⟩
      · obtain ⟨-, rfl⟩ := htier.resolve_right fun h => h.1 hsorts
        exact byRule_two.1 hrule
      · obtain ⟨-, rfl⟩ := htier.resolve_left fun h => hsorts h.1
        exact byRule_typeTier.1 hrule
    · rintro ⟨hslice, hbefore, hafter⟩
      by_cases hsorts : SortsBefore today fm.expires
      · exact ⟨2, ⟨hslice, .inl ⟨hsorts, rfl⟩⟩, byRule_two.2 (hbefore hsorts)⟩
      · exact ⟨_, ⟨hslice, .inr ⟨hsorts, rfl⟩⟩, byRule_typeTier.2 (hafter hsorts)⟩

/-- The frontmatter of an instruction that does not expire. -/
def exampleInstruction : Frontmatter := { itemType := some .instruction }

/-- An instruction outside every project, in a directory whose name ends in `projects`, is
injected. -/
theorem instruction_near_projects : ¬ ∀ (today : ℕ) (path : Str) (fm : Frontmatter)
    (humanSigned : Bool), Ruled today path fm humanSigned := by
  intro h
  obtain ⟨tier, htier, hrule⟩ := h 20000 "oldprojects/notes.md".toList exampleInstruction true
  have hzero : computeTier 20000 "oldprojects/notes.md".toList exampleInstruction true = some 0 := by
    decide
  obtain rfl : tier = 0 := Option.some.inj (htier.symm.trans hzero)
  rcases (hrule.zero.1 rfl).2 with htype | ⟨-, hscope⟩
  · exact absurd htype (by decide)
  · rcases hscope with huser | ⟨above, name, below, hdirs⟩
    · exact absurd huser (by decide)
    · have hmem : "projects".toList ∈ Path.directories "oldprojects/notes.md".toList := by
        rw [hdirs]
        simp
      exact absurd hmem (by decide)

end Tier

end Wkp
