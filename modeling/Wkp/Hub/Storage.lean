import Wkp.Hub.ControlPlane
import Wkp.Lib.Path

/-!
# The storage of the tenants

* `Hub.tenantStorageDir` : the directory that is mounted into the pod of a tenant.
* `Hub.StorageDisjoint` : the directories lie below the repositories root, none in another.
* `Hub.storageDisjoint_iff` : **plain names have disjoint directories, and no other slug is safe beside
  plain names.**
-/

namespace Wkp

open Rust

namespace Hub

/-- `tenant_storage_dir`. -/
def tenantStorageDir (reposRoot tenantSlug : Str) : Str := Path.joinStr reposRoot tenantSlug

/-- `tenant create` for one slug after another, each of which is accepted. -/
inductive CreatesTenants : Db → List Str → Db → Prop
  | nil (db : Db) : CreatesTenants db [] db
  | cons {db db' : Db} {now : ℕ} {slug : Str} {slugs : List Str} {tenant : Tenant}
      (h : (db.createTenant now slug).1 = .ok tenant)
      (rest : CreatesTenants (db.createTenant now slug).2 slugs db') :
      CreatesTenants db (slug :: slugs) db'

/-- The names from the root of the disk to the directory of a tenant. -/
def storageNames (cwd : List Str) (reposRoot slug : Str) : List Str :=
  Path.resolve cwd (tenantStorageDir reposRoot slug)

/-- The names below the root that a slug leads down to; none when it leads up and does not come back the
same way. -/
def namesBelow (root : List Str) (slug : Str) : Option (List Str) :=
  let walked := Path.walk (Path.components slug)
  let left := if slug.head? = some '/' then root else root.rtake walked.1
  if left <+: walked.2 then some (walked.2.drop left.length) else none

/-- One directory is not the other, nor in it, nor around it. -/
def Apart (dir dir' : List Str) : Prop := ¬ dir <+: dir' ∧ ¬ dir' <+: dir

/-- The directories of the tenants lie below the repositories root, and none is in another. -/
def StorageDisjoint (cwd : List Str) (reposRoot : Str) (slugs : List Str) : Prop :=
  (∀ slug ∈ slugs, Path.resolve cwd reposRoot <+: storageNames cwd reposRoot slug ∧
    storageNames cwd reposRoot slug ≠ Path.resolve cwd reposRoot) ∧
  slugs.Pairwise fun slug slug' =>
    Apart (storageNames cwd reposRoot slug) (storageNames cwd reposRoot slug')

/-! ### Tenants that are created -/

theorem createTenant_ok {db : Db} {now : ℕ} {slug : Str} {tenant : Tenant}
    (h : (db.createTenant now slug).1 = .ok tenant) :
    (∀ t ∈ db.tenants, t.slug ≠ slug) ∧ tenant.slug = slug ∧
      (db.createTenant now slug).2.tenants = db.tenants ++ [tenant] := by
  unfold Db.createTenant at h ⊢
  dsimp only at h ⊢
  split_ifs at h ⊢ with hslug
  obtain rfl := Except.ok.inj h
  exact ⟨by simpa [Db.findTenantBySlug] using hslug, rfl, rfl⟩

theorem CreatesTenants.slugs_eq {db db' : Db} {slugs : List Str} (h : CreatesTenants db slugs db') :
    db'.tenants.map Tenant.slug = db.tenants.map Tenant.slug ++ slugs ∧ slugs.Nodup ∧
      ∀ slug ∈ slugs, slug ∉ db.tenants.map Tenant.slug := by
  induction h with
  | nil db => simp
  | @cons db db' now slug slugs tenant hok _ ih =>
    obtain ⟨hnew, rfl, htenants⟩ := createTenant_ok hok
    obtain ⟨hall, hnodup, hfresh⟩ := ih
    rw [htenants, List.map_append, List.map_singleton] at hall hfresh
    refine ⟨by rw [hall, List.append_assoc]; rfl, ?_, ?_⟩
    · refine List.nodup_cons.2 ⟨fun hmem => ?_, hnodup⟩
      exact hfresh _ hmem (List.mem_append_right _ (List.mem_singleton_self _))
    · intro slug' hslug'
      rcases List.mem_cons.1 hslug' with rfl | hslug'
      · intro hmem
        obtain ⟨t, ht, heq⟩ := List.mem_map.1 hmem
        exact hnew t ht heq
      · exact fun hmem => hfresh slug' hslug' (List.mem_append_left _ hmem)

theorem exists_createsTenants {db : Db} {slugs : List Str} (hnodup : slugs.Nodup)
    (hnew : ∀ slug ∈ slugs, slug ∉ db.tenants.map Tenant.slug) :
    ∃ db', CreatesTenants db slugs db' := by
  induction slugs generalizing db with
  | nil => exact ⟨db, .nil db⟩
  | cons slug slugs ih =>
    obtain ⟨hnot, hrest⟩ := List.nodup_cons.1 hnodup
    have hfree : (db.findTenantBySlug slug).isSome = false := by
      rw [Option.isSome_eq_false_iff, Option.isNone_iff_eq_none]
      refine Table.find?_eq_none_iff.2 fun t ht heq => hnew slug List.mem_cons_self ?_
      exact List.mem_map.2 ⟨t, ht, heq⟩
    have hok : ∃ tenant, (db.createTenant 0 slug).1 = .ok tenant := by
      unfold Db.createTenant
      dsimp only
      rw [if_neg (by simpa [Db.findTenantBySlug] using hfree)]
      exact ⟨_, rfl⟩
    obtain ⟨tenant, hok⟩ := hok
    obtain ⟨-, rfl, htenants⟩ := createTenant_ok hok
    obtain ⟨db', h⟩ := @ih (db.createTenant 0 tenant.slug).2 hrest (by
      intro slug' hslug'
      rw [htenants, List.map_append, List.map_singleton, List.mem_append, not_or]
      refine ⟨hnew slug' (List.mem_cons_of_mem _ hslug'), fun hmem => hnot ?_⟩
      rwa [← List.mem_singleton.1 hmem])
    exact ⟨db', .cons hok h⟩

/-! ### Directories -/

variable {cwd : List Str} {reposRoot : Str}

theorem storageNames_eq (slug : Str) :
    storageNames cwd reposRoot slug = Path.resolve (Path.resolve cwd reposRoot) slug :=
  Path.resolve_joinStr cwd reposRoot slug

theorem exists_append_cons_iff {dir dir' : List Str} :
    (∃ name names, dir' = dir ++ name :: names) ↔ dir <+: dir' ∧ dir' ≠ dir := by
  constructor
  · rintro ⟨name, names, rfl⟩
    exact ⟨List.prefix_append _ _, by simp⟩
  · rintro ⟨⟨rest, rfl⟩, hne⟩
    cases rest with
    | nil => exact absurd (List.append_nil dir) hne
    | cons name names => exact ⟨name, names, rfl⟩

/-- A slug leads out of the root, or into the directory of a plain name. -/
theorem exists_not_storageDisjoint (slug : Str) :
    ¬ StorageDisjoint cwd reposRoot [slug] ∨
      ∃ name, Path.PlainName name ∧ ¬ StorageDisjoint cwd reposRoot [slug, name] := by
  by_cases hbelow : ∃ name names, storageNames cwd reposRoot slug =
      Path.resolve cwd reposRoot ++ name :: names
  · obtain ⟨name, names, hnames⟩ := hbelow
    have hplain : Path.PlainName name :=
      Path.plainName_of_resolve_eq ((storageNames_eq slug).symm.trans hnames)
    refine .inr ⟨name, hplain, fun hdisjoint => ?_⟩
    obtain ⟨-, hapart⟩ := (List.pairwise_cons.1 hdisjoint.2).1 name (List.mem_singleton_self name)
    refine hapart ?_
    rw [storageNames_eq name, hplain.resolve, hnames]
    exact ⟨names, by simp⟩
  · refine .inl fun hdisjoint => hbelow ?_
    exact exists_append_cons_iff.2 (hdisjoint.1 slug (List.mem_singleton_self slug))

/-- **Where a slug leads below the root.** -/
theorem storageNames_eq_append_iff {slug : Str} {below : List Str} :
    storageNames cwd reposRoot slug = Path.resolve cwd reposRoot ++ below ↔
      namesBelow (Path.resolve cwd reposRoot) slug = some below := by
  rw [storageNames_eq, namesBelow, Path.resolve.eq_1 _ slug, Path.foldl_follow_eq]
  generalize Path.resolve cwd reposRoot = root
  generalize Path.walk (Path.components slug) = walked
  -- what is left of the root is followed by the names that the slug leads up
  have hleft : ∀ left kept : List Str, root = kept ++ left →
      (kept ++ walked.2 = root ++ below ↔
        (if left <+: walked.2 then some (walked.2.drop left.length) else none) = some below) := by
    rintro left kept rfl
    rw [List.append_assoc, List.append_cancel_left_eq, Option.ite_none_right_eq_some]
    constructor
    · intro heq
      exact ⟨heq ▸ List.prefix_append _ _, by rw [heq, List.drop_left]⟩
    · rintro ⟨⟨rest, hrest⟩, hdrop⟩
      rw [← hrest, List.drop_left] at hdrop
      rw [← hrest, Option.some.inj hdrop]
  by_cases habs : slug.head? = some '/'
  · rw [if_pos habs, if_pos habs, List.rdrop_nil]
    exact hleft root [] rfl
  · rw [if_neg habs, if_neg habs]
    exact hleft _ _ (List.take_append_drop _ _).symm

theorem below_iff {slug : Str} :
    (Path.resolve cwd reposRoot <+: storageNames cwd reposRoot slug ∧
      storageNames cwd reposRoot slug ≠ Path.resolve cwd reposRoot) ↔
    ∃ name names, namesBelow (Path.resolve cwd reposRoot) slug = some (name :: names) := by
  rw [← exists_append_cons_iff]
  exact exists₂_congr fun _ _ => storageNames_eq_append_iff

/-- **Plain names have disjoint directories, and no other slug is safe beside plain names.**  The
directories of a set of slugs are disjoint if and only if every slug leads down from the root, or comes
back to it the way it went up and goes on, and no slug leads onto the way of another. -/
theorem storageDisjoint_iff {slugs : List Str} {db : Db} (h : CreatesTenants {} slugs db) :
    ((∀ slug ∈ slugs, Path.PlainName slug) → StorageDisjoint cwd reposRoot slugs) ∧
    (∀ slug, ¬ Path.PlainName slug → ∃ slugs' db', slug ∈ slugs' ∧ CreatesTenants {} slugs' db' ∧
      (∀ slug' ∈ slugs', slug' = slug ∨ Path.PlainName slug') ∧
      ¬ StorageDisjoint cwd reposRoot slugs') ∧
    (StorageDisjoint cwd reposRoot slugs ↔
      (∀ slug ∈ slugs, ∃ name names, namesBelow (Path.resolve cwd reposRoot) slug =
        some (name :: names)) ∧
      slugs.Pairwise fun slug slug' => ∀ names ∈ namesBelow (Path.resolve cwd reposRoot) slug,
        ∀ names' ∈ namesBelow (Path.resolve cwd reposRoot) slug', Apart names names') := by
  obtain ⟨-, hnodup, -⟩ := h.slugs_eq
  refine ⟨fun hplain => ⟨fun slug hslug => ?_, ?_⟩, fun slug hslug => ?_, ?_⟩
  · rw [storageNames_eq, (hplain slug hslug).resolve]
    exact ⟨List.prefix_append _ _, by simp⟩
  · refine hnodup.imp_of_mem fun {slug slug'} hslug hslug' hne => ?_
    rw [storageNames_eq, storageNames_eq, (hplain slug hslug).resolve, (hplain slug' hslug').resolve]
    -- directories of one name below the root
    have hstarts : ∀ {a b : Str}, a ≠ b →
        ¬ Path.resolve cwd reposRoot ++ [a] <+: Path.resolve cwd reposRoot ++ [b] := by
      intro a b hab hpre
      rw [List.prefix_append_right_inj] at hpre
      exact hab (by simpa using hpre)
    exact ⟨hstarts hne, hstarts hne.symm⟩
  · rcases @exists_not_storageDisjoint cwd reposRoot slug with
      hnot | ⟨name, hname, hnot⟩
    · obtain ⟨db', hdb'⟩ := @exists_createsTenants {} _ (List.nodup_singleton slug) (by simp)
      refine ⟨[slug], db', List.mem_singleton_self _, hdb', fun slug' hslug' => ?_, hnot⟩
      exact .inl (List.mem_singleton.1 hslug')
    · have hne : slug ≠ name := fun heq => hslug (heq ▸ hname)
      obtain ⟨db', hdb'⟩ := @exists_createsTenants {} [slug, name]
        (by simpa using hne) (by simp)
      refine ⟨[slug, name], db', List.mem_cons_self, hdb', fun slug' hslug' => ?_, hnot⟩
      rcases List.mem_cons.1 hslug' with heq | hslug'
      · exact .inl heq
      · rw [List.mem_singleton.1 hslug']
        exact .inr hname
  · rw [StorageDisjoint, forall₂_congr fun _ _ => below_iff]
    refine and_congr_right fun hbelow => List.Pairwise.iff_of_mem fun {slug slug'} hslug hslug' => ?_
    obtain ⟨name, names, hnames⟩ := hbelow slug hslug
    obtain ⟨name', names', hnames'⟩ := hbelow slug' hslug'
    rw [Apart, storageNames_eq_append_iff.2 hnames, storageNames_eq_append_iff.2 hnames', hnames,
      hnames', List.prefix_append_right_inj, List.prefix_append_right_inj]
    simp only [Option.mem_some_iff, forall_eq', Apart]

/-- **A tenant whose directory is in that of another.** -/
theorem not_storageDisjoint : (∃ db, CreatesTenants {} ["acme".toList, "acme/notes".toList] db) ∧
    ¬ StorageDisjoint [] "/srv/wkp-hub/repos".toList ["acme".toList, "acme/notes".toList] := by
  refine ⟨exists_createsTenants (by decide) (by simp), fun h => ?_⟩
  refine ((List.pairwise_cons.1 h.2).1 _ (List.mem_singleton_self _)).1 ?_
  have hacme : storageNames [] "/srv/wkp-hub/repos".toList "acme".toList =
      ["srv".toList, "wkp-hub".toList, "repos".toList, "acme".toList] := by decide
  have hnotes : storageNames [] "/srv/wkp-hub/repos".toList "acme/notes".toList =
      ["srv".toList, "wkp-hub".toList, "repos".toList, "acme".toList, "notes".toList] := by decide
  rw [hacme, hnotes]
  exact ⟨["notes".toList], rfl⟩

/-- Two tenants with plain names. -/
theorem storageDisjoint_example :
    StorageDisjoint [] "/srv/wkp-hub/repos".toList ["acme".toList, "umbrella".toList] := by
  obtain ⟨db, hdb⟩ := @exists_createsTenants {} ["acme".toList, "umbrella".toList]
    (by decide) (by simp)
  refine (storageDisjoint_iff hdb).1 fun slug hslug => ?_
  rcases List.mem_cons.1 hslug with rfl | hslug
  · decide
  · rw [List.mem_singleton.1 hslug]
    decide

end Hub

end Wkp
