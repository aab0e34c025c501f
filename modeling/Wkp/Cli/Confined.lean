import Wkp.Cli.Signed

/-!
# Where a promotion reaches

A promotion checks that its path starts with `inbox/`, but not where its `..` lead.

* `Cli.Confined` : the item was in the inbox, and its destination is in the store.
* `Cli.confined_iff` : the item was in the inbox exactly when its path ends up below `inbox`.
-/

namespace Wkp

open Rust Git

namespace Cli

/-- The removed path leads into the inbox, and the written one into the store. -/
def Confined (root : List Str) (source dest : Str) : Prop :=
  (∃ p, target root source = .inside p ∧ isUnder "inbox".toList p = true) ∧
    ∃ p, target root dest = .inside p

/-- One more component of a path: the last name that was read where the path starts, and how many
names below it the path is. -/
def countStep (acc : Option Str × ℕ) : Component → Option Str × ℕ
  | .normal name => (if acc.2 = 0 then some name else acc.1, acc.2 + 1)
  | .parentDir => (acc.1, acc.2 - 1)
  | .rootDir | .curDir => acc

/-- Counting a name up and a `..` down, the last name that is read at zero is `inbox`, and the count
ends at two or more. -/
def EndsBelowInbox (path : Str) : Prop :=
  ((Path.components path).foldl countStep (none, 0)).1 = some "inbox".toList ∧
    2 ≤ ((Path.components path).foldl countStep (none, 0)).2

instance (path : Str) : Decidable (EndsBelowInbox path) := inferInstanceAs (Decidable (_ ∧ _))

/-- The count is the number of names that the path leads down, and the name is the first of them. -/
theorem foldl_countStep_of_descend {acc names : List Str} {cs : List Component}
    (h : Path.descend acc cs = some names) {top : Option Str} (htop : acc ≠ [] → top = acc.head?) :
    (cs.foldl countStep (top, acc.length)).2 = names.length ∧
      (names ≠ [] → (cs.foldl countStep (top, acc.length)).1 = names.head?) := by
  induction cs generalizing acc top with
  | nil =>
    obtain rfl := Option.some.inj h
    exact ⟨rfl, htop⟩
  | cons c cs ih =>
    rw [List.foldl_cons]
    cases c with
    | normal name =>
      have hlen : (acc ++ [name]).length = acc.length + 1 := List.length_append
      have := @ih (acc ++ [name]) h (if acc.length = 0 then some name else top) ?_
      · rwa [hlen] at this
      · intro _
        cases acc with
        | nil => rfl
        | cons a acc => rw [htop (List.cons_ne_nil _ _)]; rfl
    | parentDir =>
      rw [Path.descend] at h
      split_ifs at h with hacc
      have := @ih acc.dropLast h top ?_
      · rwa [List.length_dropLast] at this
      · intro hne
        rw [htop hacc]
        cases acc with
        | nil => exact absurd rfl hacc
        | cons a acc =>
          cases acc with
          | nil => exact absurd rfl hne
          | cons b acc => rfl
    | rootDir | curDir => exact ih h htop

theorem mem_of_descend {acc names : List Str} {cs : List Component}
    (h : Path.descend acc cs = some names) {name : Str} (hn : name ∈ names) :
    name ∈ acc ∨ Component.normal name ∈ cs := by
  induction cs generalizing acc with
  | nil =>
    obtain rfl := Option.some.inj h
    exact .inl hn
  | cons c cs ih =>
    cases c with
    | normal first =>
      rcases ih h with hacc | hcs
      · rcases List.mem_append.1 hacc with hacc | hfirst
        · exact .inl hacc
        · obtain rfl := List.mem_singleton.1 hfirst
          exact .inr List.mem_cons_self
      · exact .inr (List.mem_cons_of_mem _ hcs)
    | parentDir =>
      rw [Path.descend] at h
      split_ifs at h
      rcases ih h with hacc | hcs
      · exact .inl (List.mem_of_mem_dropLast hacc)
      · exact .inr (List.mem_cons_of_mem _ hcs)
    | rootDir | curDir =>
      rcases ih h with hacc | hcs
      · exact .inl hacc
      · exact .inr (List.mem_cons_of_mem _ hcs)

theorem isUnder_join_iff {dir : Str} {names : List Str} (hdir : '/' ∉ dir)
    (hnames : ∀ name ∈ names, '/' ∉ name) :
    isUnder dir (join ['/'] names) = true ↔ names.head? = some dir ∧ 2 ≤ names.length := by
  rw [isUnder, List.isPrefixOf_iff_prefix]
  match names with
  | [] => simp [join]
  | [name] =>
    have hj : join ['/'] [name] = name := by simp [join]
    rw [hj]
    constructor
    · rintro ⟨t, ht⟩
      refine absurd ?_ (hnames name List.mem_cons_self)
      rw [← ht]
      simp
    · rintro ⟨-, h⟩
      exact absurd h (by simp)
  | name :: next :: rest =>
    rw [join_cons _ _ (List.cons_ne_nil _ _), List.singleton_append]
    have hcut := splitOnce_append (hnames name List.mem_cons_self) (join ['/'] (next :: rest))
    constructor
    · rintro ⟨t, ht⟩
      rw [List.append_assoc, List.singleton_append] at ht
      rw [← ht, splitOnce_append hdir] at hcut
      refine ⟨?_, by simp⟩
      rw [(Prod.mk.inj (Option.some.inj hcut)).1]
      rfl
    · rintro ⟨h, -⟩
      obtain rfl := Option.some.inj h
      exact ⟨join ['/'] (next :: rest), by simp⟩

/-- **A promotion stays in the inbox exactly when its path ends up below it**: the check of the
prefix `inbox/` does not see a `..` after it.  The destination is always in the store. -/
theorem confined_iff (H : Host) (opts : PromoteOptions) (r : Repo) {contents dest : Str}
    (hplan : planPromote H opts r = .ok (contents, dest))
    (hok : (Effect.exec (runPromote H opts) r).1.isOk = true) :
    Confined H.root opts.inboxPath dest ↔ EndsBelowInbox opts.inboxPath := by
  obtain ⟨summary, h⟩ := Effect.exists_exec_eq_ok hok
  obtain ⟨contents', dest', source, hplan', hgit, hdest, -⟩ := headTree_of_runPromote h
  rw [hplan] at hplan'
  cases hplan'
  have hrelative : opts.inboxPath.head? ≠ some '/' := head?_of_planPromote hplan
  rw [gitPath, if_neg hrelative] at hgit
  obtain ⟨names, hnames, hjoin⟩ := Option.map_eq_some_iff.1 hgit
  have hsource : target H.root opts.inboxPath = .inside source :=
    target_of_gitPath (by rw [gitPath, if_neg hrelative, hnames, ← hjoin]; rfl)
  have hcount := @foldl_countStep_of_descend _ _ _ hnames none fun h => absurd rfl h
  have hslash : ∀ name ∈ names, '/' ∉ name := fun name hn =>
    (Path.plainName_of_mem_components
      ((mem_of_descend hnames hn).resolve_left List.not_mem_nil)).2.1
  have hunder := @isUnder_join_iff "inbox".toList _ (by decide) hslash
  rw [hjoin] at hunder
  rw [EndsBelowInbox]
  constructor
  · rintro ⟨⟨p, hp, hin⟩, -⟩
    rw [hsource] at hp
    obtain rfl := Location.inside.inj hp
    obtain ⟨hhead, hlen⟩ := hunder.1 hin
    refine ⟨(hcount.2 ?_).trans hhead, by rw [← hcount.1] at hlen; exact hlen⟩
    rintro rfl
    cases hhead
  · rintro ⟨hhead, hlen⟩
    have hlen' : 2 ≤ names.length := by rw [← hcount.1]; exact hlen
    have hne : names ≠ [] := by
      rintro rfl
      exact absurd hlen' (by decide)
    exact ⟨⟨source, hsource, hunder.2 ⟨(hcount.2 hne).symm.trans hhead, hlen'⟩⟩, dest, hdest⟩

theorem confined_iff_exampleInbox :
    Confined exampleHost.root "inbox/a.md".toList "user/a.md".toList :=
  (@confined_iff exampleHost examplePromotion (exampleInbox ∅) "note\n".toList _
    (by decide +kernel) (by decide +kernel)).2 (by decide)

/-- A path that starts with `inbox/` and leads out of it: the item that goes is not in the inbox. -/
theorem not_confined_exampleInbox :
    let opts := { examplePromotion with inboxPath := "inbox/../recipients".toList }
    (Effect.exec (runPromote exampleHost opts) (exampleInbox ∅)).1.isOk = true ∧
      ¬ Confined exampleHost.root opts.inboxPath "user/a.md".toList := by
  refine ⟨by decide +kernel, ?_⟩
  rintro ⟨⟨p, hp, hin⟩, -⟩
  have ht : target exampleHost.root "inbox/../recipients".toList = .inside recipientsFilename := by
    decide
  obtain rfl := Location.inside.inj (ht.symm.trans hp)
  exact absurd hin (by decide)

end Cli

end Wkp
