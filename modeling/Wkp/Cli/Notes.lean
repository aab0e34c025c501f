import Wkp.Cli.Forged
import Wkp.Cli.Sync
import Wkp.Git.Pathspec

/-!
# The notes of a sync

The paths and the texts of the notes about deletions.

* `Cli.nanos_eq_of_notePath_eq`, `Cli.plainSpec_notePath` : the path of a note is unlike that of a
  note at another time, and git takes it for itself.
* `Cli.parse_deletionNote` : the text parses as an item that is only proposed.
-/

namespace Wkp

open Rust Frontmatter Git

namespace Cli

/-! ### Their paths -/

theorem dash_notMem_decimal (n : ℕ) : '-' ∉ decimal n :=
  fun h => absurd (isDigit_of_mem_decimal h) (by decide)

theorem decimal_injective : Function.Injective decimal := by
  intro m n h
  rw [decimal, decimal, Nat.toList_repr, Nat.toList_repr] at h
  rw [← Nat.ofDigitChars_ten_toDigits (n := m), h, Nat.ofDigitChars_ten_toDigits]

/-- The name of a note without its extension. -/
def noteStem (p : Str) (nanos : ℕ) : Str := slugify (deletionTitle p) ++ '-' :: decimal nanos

theorem notePath_eq (p : Str) (nanos : ℕ) :
    notePath p nanos = "inbox/".toList ++ (noteStem p nanos ++ ".md".toList) := by
  have hassoc : ∀ a b d e : Str, a ++ b ++ '-' :: (d ++ e) = a ++ ((b ++ '-' :: d) ++ e) := by
    intro a b d e
    simp only [List.append_assoc, List.cons_append]
  exact hassoc _ _ _ _

theorem nanos_eq_of_notePath_eq {p q : Str} {m n : ℕ} (h : notePath p m = notePath q n) : m = n := by
  have hname := (notePath_eq p m).symm.trans (h.trans (notePath_eq q n))
  have hstem := List.append_cancel_right (List.append_cancel_left hname)
  -- the time is behind the last dash
  have hrev := congrArg List.reverse hstem
  rw [noteStem, noteStem, List.reverse_append, List.reverse_append, List.reverse_cons,
    List.reverse_cons, List.append_assoc, List.append_assoc] at hrev
  have hdecimal := (append_cons_inj (mt List.mem_reverse.1 (dash_notMem_decimal m))
    (mt List.mem_reverse.1 (dash_notMem_decimal n)) hrev).1
  exact decimal_injective (List.reverse_injective hdecimal)

/-- The path of a note. -/
def IsNotePath (p : Str) : Prop := "inbox/".toList <+: p ∧ ".md".toList <:+ p

theorem isNotePath_notePath (p : Str) (nanos : ℕ) : IsNotePath (notePath p nanos) := by
  rw [notePath_eq]
  exact ⟨List.prefix_append _ _, (List.suffix_append _ _).trans (List.suffix_append _ _)⟩

theorem mem_noteStem {p : Str} {nanos : ℕ} {c : Char} (h : c ∈ noteStem p nanos) :
    isSlugChar c = true ∨ c = '-' := by
  rw [noteStem, List.mem_append, List.mem_cons] at h
  rcases h with h | rfl | h
  · exact (isStem_slugify _).chars c h
  · exact .inr rfl
  · have hd := isDigit_of_mem_decimal h
    rw [Char.isDigit, Bool.and_eq_true, decide_eq_true_iff, decide_eq_true_iff] at hd
    exact .inl (isSlugChar_iff.2 (.inr hd))

/-- **The path of a note is a plain pathspec**, whatever the path that it is about. -/
theorem plainSpec_notePath (p : Str) (nanos : ℕ) : PlainSpec (notePath p nanos) := by
  have hnot : ∀ c, ¬ (isSlugChar c = true ∨ c = '-') → c ∉ ".md".toList →
      c ∉ noteStem p nanos ++ ".md".toList := by
    intro c hc hext hmem
    rcases List.mem_append.1 hmem with hmem | hmem
    exacts [hc (mem_noteStem hmem), hext hmem]
  have hmd : 'm' ∈ noteStem p nanos ++ ".md".toList := List.mem_append_right _ (by decide)
  have hpath : notePath p nanos = "inbox".toList ++ '/' :: (noteStem p nanos ++ ".md".toList) :=
    notePath_eq p nanos
  generalize noteStem p nanos ++ ".md".toList = name at hnot hmd hpath
  have hpieces : split '/' (notePath p nanos) = ["inbox".toList, name] := by
    have hjoin : notePath p nanos = ['/'].intercalate ["inbox".toList, name] := by
      rw [hpath, List.intercalate_cons_cons, List.intercalate_singleton]
      rfl
    rw [split, hjoin]
    refine List.splitOn_intercalate '/' ?_ (List.cons_ne_nil _ _)
    exact List.forall_mem_cons.2
      ⟨by decide, List.forall_mem_singleton.2 (hnot _ (by decide) (by decide))⟩
  refine ⟨?_, fun c hc => ?_, fun piece hpiece => ?_⟩
  · rw [hpath]
    exact fun h => absurd (Option.some.inj h) (by decide)
  · have hwild : ∀ d, ¬ (isSlugChar d = true ∨ d = '-') → d ∉ ".md".toList →
        d ∉ "inbox/".toList → c ≠ d := by
      rintro d hd hext hinbox rfl
      rw [hpath, List.mem_append, List.mem_cons] at hc
      rcases hc with hc | rfl | hc
      exacts [hinbox (List.mem_append_left ['/'] hc), hinbox (by decide), hnot c hd hext hc]
    exact ⟨hwild _ (by decide) (by decide) (by decide), hwild _ (by decide) (by decide) (by decide),
      hwild _ (by decide) (by decide) (by decide), hwild _ (by decide) (by decide) (by decide)⟩
  · rw [hpieces, List.mem_cons, List.mem_singleton] at hpiece
    rcases hpiece with rfl | rfl
    · decide
    · -- neither one dot nor two are the name: it has letters
      refine ⟨List.ne_nil_of_mem hmd, hnot _ (by decide) (by decide), ?_, ?_⟩
      · rintro rfl
        exact absurd hmd (by decide)
      · rintro rfl
        exact absurd hmd (by decide)

/-! ### Their texts -/

/-- The note, as an item that an agent writes. -/
def noteOptions (path : Str) : RememberOptions where
  itemType := "project-state".toList
  scope := none
  title := some (deletionTitle path)
  principal := "agent:wkp-merge-resolver".toList
  signingKeyFile := []
  session := none

/-- What the note says below its frontmatter. -/
def noteText (path : Str) (deletedBy : DeletedBy) : Str :=
  "`".toList ++ path ++ "` was deleted by ".toList ++ deleter deletedBy ++
    " during a sync merge, but ".toList ++ survivor deletedBy ++
    " modification survived and was kept in place (design ".toList ++
    "6.2: a deletion always loses to a modification). Confirm ".toList ++
    "whether `".toList ++ path ++ "` should still be deleted.".toList

theorem trim_noteText (path : Str) (deletedBy : DeletedBy) :
    trim (noteText path deletedBy) = noteText path deletedBy := by
  refine trim_eq_self ⟨fun c hc => ?_, fun c hc => ?_⟩
  · have hhead : (noteText path deletedBy).head? = some '`' := rfl
    rw [hhead] at hc
    obtain rfl := Option.some.inj hc
    decide
  · have hend : ∀ s : Str, (s ++ "` should still be deleted.".toList).getLast? = some '.' := by
      intro s
      rw [List.getLast?_append]
      rfl
    have hlast : (noteText path deletedBy).getLast? = some '.' := hend _
    rw [hlast] at hc
    obtain rfl := Option.some.inj hc
    decide

theorem note_append_assoc {lf first last a b : Str} (ha : a = lf ++ first) (hb : b = last ++ lf)
    (block p q r s t u v w : Str) :
    block ++ (a ++ p ++ q ++ r ++ s ++ t ++ u ++ v ++ w ++ p ++ b) =
      block ++ lf ++ (first ++ p ++ q ++ r ++ s ++ t ++ u ++ v ++ w ++ p ++ last) ++ lf := by
  subst ha hb
  simp only [List.append_assoc]

theorem deletionNote_eq (T : CharTables) (path : Str) (deletedBy : DeletedBy) :
    deletionNote T path deletedBy = (noteOptions path).content T (noteText path deletedBy) := by
  have hopen : "\n`".toList = "\n".toList ++ "`".toList := rfl
  have hclose : "` should still be deleted.\n".toList =
      "` should still be deleted.".toList ++ "\n".toList := rfl
  rw [RememberOptions.content, trim_noteText]
  exact note_append_assoc hopen hclose _ path _ _ _ _ _ _ _

theorem contained_noteOptions (path : Str) : Contained "type" (noteOptions path).itemType :=
  (by decide : Contained "type" "project-state".toList)

/-- **A note parses**: it is only proposed, and names the path. -/
theorem parse_deletionNote (T : CharTables) (path : Str) (deletedBy : DeletedBy) :
    (parse (deletionNote T path deletedBy)).frontmatter.confidence = some .proposed ∧
      path <:+: (parse (deletionNote T path deletedBy)).body := by
  rw [deletionNote_eq]
  have hunforged := (@unforged_content_iff T (noteOptions path)
    (noteText path deletedBy)).2 ⟨contained_noteOptions path, fun scope hscope => by cases hscope⟩
  refine ⟨by rw [hunforged.frontmatter]; rfl, ?_⟩
  have hname : path <:+: noteText path deletedBy :=
    ⟨_, "` should still be deleted.".toList, rfl⟩
  have hbody := hunforged.body.trans
    (congrArg (fun text => "\n".toList ++ text ++ "\n".toList) (trim_noteText path deletedBy))
  rw [hbody]
  exact hname.trans ⟨"\n".toList, "\n".toList, rfl⟩

end Cli

end Wkp
