import Wkp.Core.Stable
import Wkp.Lib.ThreeWay

/-!
# The merge driver's content merge

* `Merge.merge` : three whole files to one.  It never fails: what it cannot merge it renders with
  both documents in full (`Merge.renderConflict`).
* `Merge.Diverges` : when it falls back to that rendering.
* `Merge.parse_merge` : what a clean merge reads back as.
* `Merge.parse_renderConflict` : what the fallback reads back as: a document with no frontmatter.
-/

namespace Wkp

open Rust Frontmatter

namespace Merge

/-! ### The merge -/

/-- Present in the output of `merge` when it fell back to rendering both documents. -/
def conflictMarker : Str := "<!-- wkp-merge-conflict -->".toList

/-- Three-way merge of one field: its new value, and whether it was a conflict.  On a conflict
the field keeps the value it had. -/
def resolveScalar {α : Type} [DecidableEq α] (field base ours theirs : α) : α × Bool :=
  if ours = theirs then (ours, false)
  else if ours = base then (theirs, false)
  else if theirs = base then (ours, false)
  else (field, true)

/-- The tags of ours, then those of theirs that are not there yet. -/
def union (ours theirs : List Str) : List Str :=
  theirs.foldl (fun result tag => if tag ∈ result then result else result ++ [tag]) ours

/-- The lexicographically later of two optional dates. -/
def maxUpdated : Option Str → Option Str → Option Str
  | some o, some t => some (if o < t then t else o)
  | some o, none => some o
  | none, some t => some t
  | none, none => none

/-- The actor that labels a side of the fallback. -/
def actorOf (s : Str) : Str := (parse s).frontmatter.provenance.actor.getD "unknown".toList

/-- The notice under the marker. -/
def conflictNotice : Str :=
  "<!-- wkp: this item could not be merged structurally; both ".toList ++
    "versions are kept below. Resolve by hand and commit normally. -->\n\n".toList

/-- Both documents in full, each under a label. -/
def renderConflict (T : CharTables) (ours theirs : Str) : Str :=
  conflictMarker ++ "\n".toList ++ conflictNotice ++
    "<!-- ours (provenance.actor: ".toList ++ debug T (actorOf ours) ++ ") -->\n".toList ++
    trimEnd ours ++ "\n\n<!-- theirs (provenance.actor: ".toList ++ debug T (actorOf theirs) ++
    ") -->\n".toList ++ trimEnd theirs ++ "\n".toList

/-- The merged frontmatter, and whether some scalar field was a conflict. -/
def mergeFrontmatter (base ours theirs : Frontmatter) : Frontmatter × Bool :=
  let merged := { ours with
    tags := union ours.tags theirs.tags
    updated := maxUpdated ours.updated theirs.updated }
  let title := resolveScalar merged.title base.title ours.title theirs.title
  let itemType := resolveScalar merged.itemType base.itemType ours.itemType theirs.itemType
  let scope := resolveScalar merged.scope base.scope ours.scope theirs.scope
  let workspace := resolveScalar merged.workspace base.workspace ours.workspace theirs.workspace
  let visibility :=
    resolveScalar merged.visibility base.visibility ours.visibility theirs.visibility
  let confidence :=
    resolveScalar merged.confidence base.confidence ours.confidence theirs.confidence
  let expires := resolveScalar merged.expires base.expires ours.expires theirs.expires
  ({ merged with
      title := title.1, itemType := itemType.1, scope := scope.1, workspace := workspace.1
      visibility := visibility.1, confidence := confidence.1, expires := expires.1 },
    title.2 || itemType.2 || scope.2 || workspace.2 || visibility.2 || confidence.2 || expires.2)

/-- Both sides changed the body, differently. -/
def bodyConflict (base ours theirs : Str) : Bool :=
  ours != base && theirs != base && ours != theirs

/-- The body the three-way rule selects. -/
def selectBody (base ours theirs : Str) : Str := if ours ≠ base then ours else theirs

/-- Merge three whole files: the common ancestor, ours and theirs. -/
def merge (T : CharTables) (base ours theirs : Str) : Str :=
  let b := parse base
  let o := parse ours
  let t := parse theirs
  let merged := mergeFrontmatter b.frontmatter o.frontmatter t.frontmatter
  if merged.2 || bodyConflict b.body o.body t.body then renderConflict T ours theirs
  else render T merged.1 ++ "\n".toList ++ selectBody b.body o.body t.body

/-! ### When it falls back -/

open ThreeWay

theorem resolveScalar_snd {α : Type} [DecidableEq α] (field base ours theirs : α) :
    (resolveScalar field base ours theirs).2 = true ↔ Conflict base ours theirs := by
  rw [← resolve_eq_none_iff, resolveScalar, resolve]
  split_ifs <;> simp

theorem resolveScalar_fst {α : Type} [DecidableEq α] {field base ours theirs : α}
    (h : ¬ Conflict base ours theirs) :
    resolve base ours theirs = some (resolveScalar field base ours theirs).1 := by
  rw [← resolve_eq_none_iff, resolve] at h
  rw [resolve, resolveScalar]
  split_ifs at h ⊢ <;> first | rfl | exact absurd rfl h

theorem resolve_selectBody {base ours theirs : Str} (h : ¬ Conflict base ours theirs) :
    resolve base ours theirs = some (selectBody base ours theirs) := by
  rw [selectBody]
  by_cases ho : ours = base
  · rw [if_neg (not_not.2 ho), ho, resolve_base_left]
  · rw [if_pos ho, resolve]
    split_ifs with h1 h2
    · rfl
    · rfl
    · exact absurd ⟨ho, h2, h1⟩ h

theorem bodyConflict_iff {base ours theirs : Str} :
    bodyConflict base ours theirs = true ↔ Conflict base ours theirs := by
  simp only [bodyConflict, Bool.and_eq_true, bne_iff_ne, Conflict, and_assoc]

/-- Some scalar field was changed on both sides, differently. -/
def FieldConflict (b o t : Frontmatter) : Prop :=
  Conflict b.title o.title t.title ∨ Conflict b.itemType o.itemType t.itemType ∨
    Conflict b.scope o.scope t.scope ∨ Conflict b.workspace o.workspace t.workspace ∨
    Conflict b.visibility o.visibility t.visibility ∨
    Conflict b.confidence o.confidence t.confidence ∨ Conflict b.expires o.expires t.expires

instance (b o t : Frontmatter) : Decidable (FieldConflict b o t) :=
  inferInstanceAs (Decidable (_ ∨ _))

/-- A scalar field or the body was changed on both sides, differently. -/
def Diverges (base ours theirs : Str) : Prop :=
  FieldConflict (parse base).frontmatter (parse ours).frontmatter (parse theirs).frontmatter ∨
    Conflict (parse base).body (parse ours).body (parse theirs).body

instance (base ours theirs : Str) : Decidable (Diverges base ours theirs) :=
  inferInstanceAs (Decidable (_ ∨ _))

theorem mergeFrontmatter_snd (b o t : Frontmatter) :
    (mergeFrontmatter b o t).2 = true ↔ FieldConflict b o t := by
  simp only [mergeFrontmatter, Bool.or_eq_true, resolveScalar_snd, FieldConflict, or_assoc]

theorem merge_of_diverges (T : CharTables) {base ours theirs : Str}
    (h : Diverges base ours theirs) : merge T base ours theirs = renderConflict T ours theirs := by
  rw [merge, if_pos]
  rwa [Bool.or_eq_true, mergeFrontmatter_snd, bodyConflict_iff]

theorem merge_of_not_diverges (T : CharTables) {base ours theirs : Str}
    (h : ¬ Diverges base ours theirs) : merge T base ours theirs =
      render T (mergeFrontmatter (parse base).frontmatter (parse ours).frontmatter
        (parse theirs).frontmatter).1 ++
        '\n' :: selectBody (parse base).body (parse ours).body (parse theirs).body := by
  rw [merge, if_neg, List.append_assoc]
  · rfl
  · rwa [Bool.or_eq_true, mergeFrontmatter_snd, bodyConflict_iff]

/-- What a merged frontmatter holds when no field is a conflict. -/
structure Merged (b o t m : Frontmatter) : Prop where
  title : resolve b.title o.title t.title = some m.title
  itemType : resolve b.itemType o.itemType t.itemType = some m.itemType
  scope : resolve b.scope o.scope t.scope = some m.scope
  workspace : resolve b.workspace o.workspace t.workspace = some m.workspace
  visibility : resolve b.visibility o.visibility t.visibility = some m.visibility
  confidence : resolve b.confidence o.confidence t.confidence = some m.confidence
  expires : resolve b.expires o.expires t.expires = some m.expires
  provenance : m.provenance = o.provenance
  tokensRaw : m.tokensRaw = o.tokensRaw
  tokens : m.tokens = o.tokens
  refs : m.refs = o.refs
  tags : m.tags = union o.tags t.tags
  updated : m.updated = maxUpdated o.updated t.updated

theorem merged_mergeFrontmatter {b o t : Frontmatter} (h : ¬ FieldConflict b o t) :
    Merged b o t (mergeFrontmatter b o t).1 := by
  simp only [FieldConflict, not_or] at h
  obtain ⟨h1, h2, h3, h4, h5, h6, h7⟩ := h
  exact {
    title := resolveScalar_fst h1
    itemType := resolveScalar_fst h2
    scope := resolveScalar_fst h3
    workspace := resolveScalar_fst h4
    visibility := resolveScalar_fst h5
    confidence := resolveScalar_fst h6
    expires := resolveScalar_fst h7
    provenance := rfl, tokensRaw := rfl, tokens := rfl, refs := rfl, tags := rfl, updated := rfl }

/-! ### What the output reads back as -/

theorem mem_union {ours theirs : List Str} {tag : Str} (h : tag ∈ union ours theirs) :
    tag ∈ ours ∨ tag ∈ theirs := by
  induction theirs generalizing ours with
  | nil => exact .inl h
  | cons u theirs ih =>
    rw [union, List.foldl_cons] at h
    rcases ih h with h | h
    · split_ifs at h
      · exact .inl h
      · rcases List.mem_append.1 h with h | h
        · exact .inl h
        · exact .inr (List.mem_singleton.1 h ▸ List.mem_cons_self)
    · exact .inr (List.mem_cons_of_mem _ h)

theorem Merged.lineSafe {b o t m : Frontmatter} (h : Merged b o t m) (ho : LineSafe o)
    (ht : LineSafe t) : LineSafe m := by
  have side : ∀ {α : Type} [DecidableEq α] {x y z w : Option α} {P : α → Prop},
      resolve x y z = some w → (∀ a ∈ y, P a) → (∀ a ∈ z, P a) → ∀ a ∈ w, P a := by
    intro α _ x y z w P hr hy hz
    rcases resolve_mem hr with rfl | rfl <;> assumption
  exact {
    itemType := side h.itemType ho.itemType ht.itemType
    scope := side h.scope ho.scope ht.scope
    workspace := side h.workspace ho.workspace ht.workspace
    visibility := side h.visibility ho.visibility ht.visibility
    source := h.provenance ▸ ho.source
    confidence := side h.confidence ho.confidence ht.confidence
    tokensRaw := h.tokensRaw ▸ ho.tokensRaw
    tags := fun u hu => (mem_union (h.tags ▸ hu)).elim (ho.tags u) (ht.tags u)
    refs := h.refs ▸ ho.refs }

/-- The frontmatter of a merge that does not fall back. -/
def mergedOf (base ours theirs : Str) : Frontmatter :=
  (mergeFrontmatter (parse base).frontmatter (parse ours).frontmatter (parse theirs).frontmatter).1

theorem merged_mergedOf {base ours theirs : Str} (h : ¬ Diverges base ours theirs) :
    Merged (parse base).frontmatter (parse ours).frontmatter (parse theirs).frontmatter
      (mergedOf base ours theirs) :=
  merged_mergeFrontmatter fun hf => h (.inl hf)

/-- **A clean merge reads back** with its merged frontmatter rendered and read, and with a line
feed in front of the body that the three-way rule selects. -/
theorem parse_merge (T : CharTables) {base ours theirs : Str} (h : ¬ Diverges base ours theirs) :
    parse (merge T base ours theirs) = ⟨reparse T (mergedOf base ours theirs),
      '\n' :: selectBody (parse base).body (parse ours).body (parse theirs).body, []⟩ := by
  rw [merge_of_not_diverges T h]
  exact parse_render ((merged_mergedOf h).lineSafe (parsed_parse ours).lineSafe
    (parsed_parse theirs).lineSafe) T _

theorem conflictMarker_prefix_renderConflict (T : CharTables) (ours theirs : Str) :
    ∃ rest, renderConflict T ours theirs = conflictMarker ++ '\n' :: rest := by
  simp only [renderConflict, List.append_assoc]
  exact ⟨_, congrArg (conflictMarker ++ ·) rfl⟩

/-- **The fallback reads back with no frontmatter at all.** -/
theorem parse_renderConflict (T : CharTables) (ours theirs : Str) :
    parse (renderConflict T ours theirs) = ⟨default, renderConflict T ours theirs, []⟩ := by
  obtain ⟨rest, hrest⟩ := conflictMarker_prefix_renderConflict T ours theirs
  rw [hrest]
  exact parse_cons (by decide) (by decide) (by decide) _

/-- A clean merge is not a fallback rendering of anything. -/
theorem merge_ne_renderConflict (T : CharTables) {base ours theirs : Str}
    (h : ¬ Diverges base ours theirs) (o t : Str) :
    merge T base ours theirs ≠ renderConflict T o t := by
  intro heq
  obtain ⟨rest, hrest⟩ := conflictMarker_prefix_renderConflict T o t
  rw [merge_of_not_diverges T h, hrest] at heq
  simp only [render, List.append_assoc] at heq
  have hdash : ∀ s : Str, ("---\n".toList ++ s).head? = some '-' := fun _ => rfl
  have hangle : ∀ s : Str, (conflictMarker ++ s).head? = some '<' := fun _ => rfl
  have hhead := congrArg List.head? heq
  rw [hdash, hangle] at hhead
  exact absurd hhead (by decide)

end Merge

end Wkp
