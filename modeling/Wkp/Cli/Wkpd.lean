import Wkp.Cli.IndexCmd
import Wkp.Cli.TrustFiles

/-!
# Private keys and the watch cycle

`wkp init` writes the list of what git ignores, later commands write private keys under `.wkp/`, and
every cycle of `wkpd` commits the files that the status reports as new or modified.

* `Cli.SecretStore` : a store with the files that hold the private keys of wkp; `Cli.StoreAct` : what
  happens to it.
* `Cli.SecretStore.ensureGitignored`, `Cli.SecretStore.runInit` : the list, and what else a new store
  has.
* `Cli.cyclePaths` : the files that a cycle commits.
* `Cli.secretsKept_iff` : **when no cycle commits a private key.**
-/

namespace Wkp

open Rust Git

namespace Cli

/-! ### Where the keys are -/

/-- The private key of the device for encryption, when the keystore is out of reach. -/
def deviceIdentityFallback : Str := ".wkp/device-identity".toList

/-- The private key of the device for the hub, when the keystore is out of reach. -/
def signingIdentityFallback : Str := ".wkp/hub-signing-identity".toList

/-- The private key of the device for the hub, as git reads it. -/
def deviceKeyPemFile : Str := ".wkp/hub-device-key.pem".toList

/-- The certificate of the device. -/
def deviceCertFile : Str := ".wkp/hub-device-cert.pem".toList

/-- The certificate of the hub. -/
def caCertFile : Str := ".wkp/hub-ca-cert.pem".toList

/-- The name of the device. -/
def deviceIdFile : Str := ".wkp/device-id".toList

/-- What `wkp init` has git ignore. -/
def gitignorePatterns : List Str := [".wkp/index.db".toList, ".wkp/tier*.md".toList,
  ".wkp/device-id".toList, deviceIdentityFallback, ".wkp/metrics.db*".toList]

/-- What reads as a private key in the file with this path. -/
abbrev KeyFormat := Str → Content → Bool

/-- A store, and the files in it that hold private keys that wkp wrote. -/
structure SecretStore where
  /-- The repository. -/
  repo : Repo
  /-- The paths of the keys. -/
  secrets : List Str

namespace SecretStore

/-- A file is written that holds no key. -/
def write (s : SecretStore) (path : Str) (content : Content) : SecretStore where
  repo := { s.repo with worktree := s.repo.worktree.insert path content }
  secrets := s.secrets.filter (· ≠ path)

/-- A file is removed. -/
def remove (s : SecretStore) (path : Str) : SecretStore where
  repo := { s.repo with worktree := s.repo.worktree.erase path }
  secrets := s.secrets.filter (· ≠ path)

/-- A key is written. -/
def writeSecret (s : SecretStore) (path : Str) (key : Content) : SecretStore where
  repo := { s.repo with worktree := s.repo.worktree.insert path key }
  secrets := s.secrets.insert path

/-- The store is left as `next`, with the keys where their files are as before. -/
def settle (s : SecretStore) (next : Repo) : SecretStore where
  repo := next
  secrets := s.secrets.filter fun p => next.worktree.lookup p = s.repo.worktree.lookup p

/-- The text of a file, empty when it cannot be read. -/
def textAt (s : SecretStore) (path : Str) : Str :=
  match s.repo.worktree.readToString path with
  | .ok text => text
  | .error _ => []

/-! ### Writers -/

/-- The lines that a file does not have yet are appended to it. -/
def ensureLinesPresent (s : SecretStore) (path : Str) (ls : List Str) : SecretStore :=
  let existing := s.textAt path
  let missing := missingLines ls existing
  if missing.isEmpty then s else s.write path (.text (withLines missing existing))

/-- `wkp init` lists what git ignores. -/
def ensureGitignored (s : SecretStore) : SecretStore :=
  s.ensureLinesPresent ".gitignore".toList gitignorePatterns

/-- The name of the device, written once. -/
def deviceId (s : SecretStore) (generated : Str) : SecretStore :=
  if trim (s.textAt deviceIdFile) ≠ [] then s
  else s.write deviceIdFile (.text (generated ++ ['\n']))

/-- The key of the device, from the keystore, else from its file, else written there; none when the
file does not hold a key. -/
def ensureIdentity (s : SecretStore) (K : KeyFormat) (fallback : Str) (keystore : Bool)
    (generated : Content) : Option SecretStore :=
  if keystore then some s
  else match s.repo.worktree.lookup fallback with
    | some key =>
      if K fallback key then some { s with secrets := s.secrets.insert fallback } else none
    | none => some (s.writeSecret fallback generated)

/-- `wkp init`, which stops where there is no key. -/
def runInit (s : SecretStore) (K : KeyFormat) (id : Str) (keystore : Bool)
    (generated db : Content) : SecretStore :=
  let s := s.ensureLinesPresent ".gitattributes".toList ["*.md merge=wkp".toList]
  let s := s.ensureLinesPresent ".gitattributes".toList ["*.md filter=wkp-crypt".toList]
  let s := s.deviceId id
  match s.ensureIdentity K deviceIdentityFallback keystore generated with
  | none => s
  | some s => s.ensureGitignored.write ".wkp/index.db".toList db

end SecretStore

/-- What the hub sends once a device is approved, and the key as git reads it. -/
structure Approved where
  /-- The certificate of the device. -/
  certificatePem : Content
  /-- The certificate of the hub. -/
  caCertPem : Option Content
  /-- The private key. -/
  keyPem : Content

/-- `wkp hub register`, which stops where there is no key or before the approval, or gets it. -/
def SecretStore.hubRegister (s : SecretStore) (K : KeyFormat) (id : Str) (keystore : Bool)
    (generated : Content) (approval : Option Approved) : SecretStore :=
  let s := s.deviceId id
  match s.ensureIdentity K signingIdentityFallback keystore generated, approval with
  | none, _ => s
  | some s, none => s
  | some s, some approved =>
    let s := s.write deviceCertFile approved.certificatePem
    let s := match approved.caCertPem with
      | none => s
      | some caCertPem => s.write caCertFile caCertPem
    s.writeSecret deviceKeyPemFile approved.keyPem

/-! ### Histories -/

/-- What happens to a store. -/
inductive StoreAct
  | write (path : Str) (content : Content)
  | remove (path : Str)
  /-- A command that writes no key, whatever it leaves: an index run, a commit, a sync. -/
  | command (next : Repo)
  | deviceIdentity (keystore : Bool) (generated : Content)
  | hubRegister (id : Str) (keystore : Bool) (generated : Content) (approval : Option Approved)
  /-- A cycle of `wkpd`, and what its commit, its index run and its sync leave. -/
  | cycle (next : Repo)

/-- The store after an act. -/
def SecretStore.step (s : SecretStore) (K : KeyFormat) : StoreAct → SecretStore
  | .write path content => s.write path content
  | .remove path => s.remove path
  | .command next | .cycle next => s.settle next
  | .deviceIdentity keystore generated =>
    (s.ensureIdentity K deviceIdentityFallback keystore generated).getD s
  | .hubRegister id keystore generated approval => s.hubRegister K id keystore generated approval

/-- The files that a cycle commits. -/
def cyclePaths (changes : ChangeSet) : List Str :=
  changes.added ++ changes.modified ++ changes.renamed.map Renamed.target

/-- The property holds before every cycle of a history. -/
def EveryCycle (K : KeyFormat) (P : SecretStore → Prop) : SecretStore → List StoreAct → Prop
  | _, [] => True
  | s, act :: acts => (∀ next, act = .cycle next → P s) ∧ EveryCycle K P (s.step K act) acts

/-- A cycle commits no private key of wkp. -/
def Kept (F : Filters) (V : View) (s : SecretStore) : Prop :=
  ∀ p ∈ cyclePaths (detectChanges F V s.repo), p ∉ s.secrets

/-- The file is ignored when git does not track it, and as in `HEAD` when it does. -/
structure Quiet (F : Filters) (V : View) (r : Repo) (p : Str) : Prop where
  /-- Untracked. -/
  ignored : p ∉ r.index → V.ignored r p = true
  /-- Tracked. -/
  unchanged : p ∈ r.index →
    ¬ r.IsUnmerged p ∧ r.stagedCode p = .unmodified ∧ r.worktreeCode F p = .unmodified

/-- Every private key of wkp is in a file that git leaves alone. -/
def Hidden (F : Filters) (V : View) (s : SecretStore) : Prop := ∀ p ∈ s.secrets, Quiet F V s.repo p

section

variable {F : Filters} {V : View} {K : KeyFormat} {r : Repo} {s : SecretStore}

/-! ### The paths of a cycle -/

/-- The paths of a cycle: the untracked ones, the unmerged ones, and those that are new, moved or
modified. -/
theorem mem_cyclePaths {x : Str} : x ∈ cyclePaths (detectChanges F V r) ↔ ∃ p, x = quotePath p ∧
    (p ∈ r.untrackedPaths (V.ignored r) ∨ r.IsUnmerged p ∨
      p ∈ (V.pairing r).pairs.map Renamed.target ∨
      r.stagedCode p = .added ∧ r.worktreeCode F p ≠ .deleted ∨ r.Modified F p) := by
  rw [cyclePaths, List.mem_append, List.mem_append, mem_added, mem_modified]
  constructor
  · rintro ((⟨p, hx, h | ⟨-, h⟩⟩ | ⟨p, hx, h | h⟩) | h)
    · exact ⟨p, hx, .inl h⟩
    · exact ⟨p, hx, .inr (.inr (.inr (.inl h)))⟩
    · exact ⟨p, hx, .inr (.inl h)⟩
    · exact ⟨p, hx, .inr (.inr (.inr (.inr h)))⟩
    · obtain ⟨c, hc, rfl⟩ := List.mem_map.1 h
      obtain ⟨pair, hpair, rfl⟩ := mem_renamed.1 hc
      exact ⟨pair.target, rfl, .inr (.inr (.inl (List.mem_map_of_mem hpair)))⟩
  · rintro ⟨p, hx, h | h | h | h | h⟩
    · exact .inl (.inl ⟨p, hx, .inl h⟩)
    · exact .inl (.inr ⟨p, hx, .inl h⟩)
    · obtain ⟨pair, hpair, rfl⟩ := List.mem_map.1 h
      exact .inr (List.mem_map.2 ⟨_, mem_renamed.2 ⟨pair, hpair, rfl⟩, hx.symm⟩)
    · by_cases htarget : p ∈ (V.pairing r).pairs.map Renamed.target
      · obtain ⟨pair, hpair, rfl⟩ := List.mem_map.1 htarget
        exact .inr (List.mem_map.2 ⟨_, mem_renamed.2 ⟨pair, hpair, rfl⟩, hx.symm⟩)
      · exact .inl (.inl ⟨p, hx, .inr ⟨htarget, h⟩⟩)
    · exact .inl (.inr ⟨p, hx, .inr h⟩)

theorem codes_of_not_mem_index {p : Str} (h : p ∉ r.index) :
    ¬ r.IsUnmerged p ∧ r.stagedCode p ≠ .added ∧ ¬ r.Modified F p := by
  have hstaged : r.stagedAt p = none := by rw [Repo.stagedAt, AList.lookup_eq_none.2 h]
  have hmerged : ¬ r.IsUnmerged p := by
    rintro ⟨stages, hstages⟩
    exact h (AList.lookup_isSome.1 (by rw [hstages]; rfl))
  refine ⟨hmerged, fun hadded => h (Repo.stagedCode_eq_added.1 hadded).2.1, ?_⟩
  rintro ⟨-, hdeleted, -, hchanged⟩
  have hhead : p ∉ r.headTree := by
    intro hhead
    exact hdeleted ((Repo.stagedCode_eq_deleted hmerged).2 ⟨hhead, h⟩)
  refine hchanged ⟨?_, ?_⟩
  · rw [Repo.stagedCode, hstaged, AList.lookup_eq_none.2 hhead, Repo.diffCode]
  · rw [Repo.worktreeCode, hstaged]

/-- A cycle commits a file that is there exactly when git does not leave it alone. -/
theorem mem_cyclePaths_iff {p : Str} (hp : Unquoted p) (hfile : p ∈ r.worktree) :
    p ∈ cyclePaths (detectChanges F V r) ↔ ¬ Quiet F V r p := by
  have hprint : p ∈ cyclePaths (detectChanges F V r) ↔
      p ∈ r.untrackedPaths (V.ignored r) ∨ r.IsUnmerged p ∨
        p ∈ (V.pairing r).pairs.map Renamed.target ∨
        r.stagedCode p = .added ∧ r.worktreeCode F p ≠ .deleted ∨ r.Modified F p := by
    rw [mem_cyclePaths]
    constructor
    · rintro ⟨q, hq, h⟩
      rwa [eq_of_quotePath_eq hp hq.symm] at h
    · exact fun h => ⟨p, (quotePath_of_unquoted hp).symm, h⟩
  rw [hprint, Repo.mem_untrackedPaths]
  -- git looks for changes of what it tracks, and at ignore patterns for anything else
  by_cases hindex : p ∈ r.index
  · have hpresent : r.worktreeCode F p ≠ .deleted := fun h =>
      (Repo.worktreeCode_eq_deleted.1 h).2 hfile
    constructor
    · intro h hquiet
      obtain ⟨hmerged, hstaged, hworktree⟩ := hquiet.unchanged hindex
      rcases h with ⟨-, hnot, -⟩ | h | h | ⟨h, -⟩ | ⟨-, -, -, h⟩
      · exact hnot hindex
      · exact hmerged h
      · have hadded := Repo.stagedCode_eq_added.2 ((V.pairing r).target_spec h)
        rw [hstaged] at hadded
        cases hadded
      · rw [hstaged] at h
        cases h
      · exact h ⟨hstaged, hworktree⟩
    · intro hquiet
      by_cases hmerged : r.IsUnmerged p
      · exact .inr (.inl hmerged)
      by_cases hadded : r.stagedCode p = .added
      · exact .inr (.inr (.inr (.inl ⟨hadded, hpresent⟩)))
      refine .inr (.inr (.inr (.inr ⟨hadded, fun hdeleted => ?_, hpresent, fun hclean => ?_⟩)))
      · exact ((Repo.stagedCode_eq_deleted hmerged).1 hdeleted).2 hindex
      · exact hquiet ⟨fun h => absurd hindex h, fun _ => ⟨hmerged, hclean⟩⟩
  · obtain ⟨hmerged, hadded, hmodified⟩ := codes_of_not_mem_index (F := F) hindex
    have htarget : p ∉ (V.pairing r).pairs.map Renamed.target := fun h =>
      hindex ((V.pairing r).target_spec h).2.1
    constructor
    · rintro (⟨-, -, hshown⟩ | h | h | ⟨h, -⟩ | h) hquiet
      · rw [hquiet.ignored hindex] at hshown
        cases hshown
      · exact hmerged h
      · exact htarget h
      · exact hadded h
      · exact hmodified h
    · intro hquiet
      refine .inl ⟨hfile, hindex, Bool.eq_false_iff.2 fun hignored => hquiet ?_⟩
      exact ⟨fun _ => hignored, fun h => absurd h hindex⟩

/-! ### Where the keys stay -/

/-- The files to which wkp writes private keys. -/
def secretFiles : List Str := [deviceIdentityFallback, signingIdentityFallback, deviceKeyPemFile]

/-- The keys are in files that are there, and in no others than those of wkp. -/
def SecretStore.Held (s : SecretStore) : Prop :=
  ∀ p ∈ s.secrets, p ∈ s.repo.worktree ∧ p ∈ secretFiles

theorem unquoted_of_mem_secretFiles {p : Str} (h : p ∈ secretFiles) : Unquoted p := by
  have hall : ∀ p ∈ secretFiles, Unquoted p := by decide
  exact hall p h

namespace SecretStore.Held

theorem write (hs : s.Held) (path : Str) (content : Content) : (s.write path content).Held := by
  intro p hp
  obtain ⟨hp, -⟩ := List.mem_filter.1 hp
  exact ⟨(AList.mem_insert _).2 (.inr (hs p hp).1), (hs p hp).2⟩

theorem remove (hs : s.Held) (path : Str) : (s.remove path).Held := by
  intro p hp
  obtain ⟨hp, hne⟩ := List.mem_filter.1 hp
  exact ⟨AList.mem_erase.2 ⟨of_decide_eq_true hne, (hs p hp).1⟩, (hs p hp).2⟩

theorem writeSecret (hs : s.Held) {path : Str} (hpath : path ∈ secretFiles) (key : Content) :
    (s.writeSecret path key).Held := by
  intro p hp
  rcases List.mem_insert_iff.1 hp with rfl | hp
  · exact ⟨(AList.mem_insert _).2 (.inl rfl), hpath⟩
  · exact ⟨(AList.mem_insert _).2 (.inr (hs p hp).1), (hs p hp).2⟩

theorem settle (hs : s.Held) (next : Repo) : (s.settle next).Held := by
  intro p hp
  obtain ⟨hp, hsame⟩ := List.mem_filter.1 hp
  have hlookup : next.worktree.lookup p = s.repo.worktree.lookup p := of_decide_eq_true hsame
  refine ⟨AList.lookup_isSome.1 ?_, (hs p hp).2⟩
  rw [show (s.settle next).repo.worktree = next.worktree from rfl, hlookup]
  exact AList.lookup_isSome.2 (hs p hp).1

theorem ensureLinesPresent (hs : s.Held) (path : Str) (ls : List Str) :
    (s.ensureLinesPresent path ls).Held := by
  unfold SecretStore.ensureLinesPresent
  dsimp only
  split
  · exact hs
  · exact hs.write _ _

theorem deviceId (hs : s.Held) (generated : Str) : (s.deviceId generated).Held := by
  unfold SecretStore.deviceId
  split
  · exact hs
  · exact hs.write _ _

theorem ensureIdentity (hs : s.Held) {fallback : Str} (hfile : fallback ∈ secretFiles)
    {keystore : Bool} {generated : Content} {s' : SecretStore}
    (h : s.ensureIdentity K fallback keystore generated = some s') : s'.Held := by
  unfold SecretStore.ensureIdentity at h
  split at h
  · obtain rfl := Option.some.inj h
    exact hs
  · split at h
    · rename_i key hkey
      split_ifs at h
      obtain rfl := Option.some.inj h
      intro p hp
      rcases List.mem_insert_iff.1 hp with rfl | hp
      · exact ⟨AList.lookup_isSome.1 (by rw [hkey]; rfl), hfile⟩
      · exact hs p hp
    · obtain rfl := Option.some.inj h
      exact hs.writeSecret hfile generated

theorem hubRegister (hs : s.Held) (id : Str) (keystore : Bool) (generated : Content)
    (approval : Option Approved) : (s.hubRegister K id keystore generated approval).Held := by
  have hfile : signingIdentityFallback ∈ secretFiles := by decide
  unfold SecretStore.hubRegister
  dsimp only
  split
  case h_1 => exact hs.deviceId id
  case h_2 _ s' hs' => exact (hs.deviceId id).ensureIdentity hfile hs'
  case h_3 _ s' approved hs' =>
    have hcert := ((hs.deviceId id).ensureIdentity hfile hs').write deviceCertFile
      approved.certificatePem
    cases approved.caCertPem with
    | none => exact hcert.writeSecret (by decide) _
    | some caCertPem => exact (hcert.write _ _).writeSecret (by decide) _

theorem step (hs : s.Held) (act : StoreAct) : (s.step K act).Held := by
  cases act with
  | write path content => exact hs.write path content
  | remove path => exact hs.remove path
  | command next => exact hs.settle next
  | deviceIdentity keystore generated =>
    rw [SecretStore.step]
    cases h : s.ensureIdentity K deviceIdentityFallback keystore generated with
    | none => exact hs
    | some s' => exact hs.ensureIdentity (by decide) h
  | hubRegister id keystore generated approval => exact hs.hubRegister id keystore generated approval
  | cycle next => exact hs.settle next

end SecretStore.Held

theorem SecretStore.held_runInit (K : KeyFormat) (r : Repo) (id : Str) (keystore : Bool)
    (generated db : Content) :
    ((⟨r, []⟩ : SecretStore).runInit K id keystore generated db).Held := by
  have hnew : (⟨r, []⟩ : SecretStore).Held := by
    intro p hp
    cases hp
  have hattributes := (hnew.ensureLinesPresent ".gitattributes".toList
    ["*.md merge=wkp".toList]).ensureLinesPresent ".gitattributes".toList
      ["*.md filter=wkp-crypt".toList]
  have hfile : deviceIdentityFallback ∈ secretFiles := by decide
  unfold SecretStore.runInit
  dsimp only
  split
  case h_1 => exact hattributes.deviceId id
  case h_2 _ s' hs' =>
    exact (((hattributes.deviceId id).ensureIdentity hfile hs').ensureLinesPresent _ _).write _ _

/-- A cycle commits no key exactly when git leaves alone every file that holds one. -/
theorem kept_iff (hs : s.Held) : Kept F V s ↔ Hidden F V s := by
  constructor
  · intro hkept p hp
    by_contra hquiet
    obtain ⟨hfile, hname⟩ := hs p hp
    exact hkept p ((mem_cyclePaths_iff (unquoted_of_mem_secretFiles hname) hfile).2 hquiet) hp
  · intro hhidden p hp hsecret
    obtain ⟨hfile, hname⟩ := hs p hsecret
    exact (mem_cyclePaths_iff (unquoted_of_mem_secretFiles hname) hfile).1 hp (hhidden p hsecret)

/-! ### What git ignores -/

/-- A pattern of `.gitignore` with a `/` within it, against a path: a `*` stands for what has no `/`
in it. -/
def globMatches : Str → Str → Bool
  | [], path => path.isEmpty
  | '*' :: pattern, path =>
    (List.range ((path.takeWhile (· ≠ '/')).length + 1)).any fun n => globMatches pattern (path.drop n)
  | c :: pattern, path => path.head? == some c && globMatches pattern path.tail

/-- A line of `.gitignore` matches the path. -/
def gitignored (r : Repo) (path : Str) : Bool :=
  (lines ((⟨r, []⟩ : SecretStore).textAt ".gitignore".toList)).any (globMatches · path)

end

theorem everyCycle_congr {P Q : SecretStore → Prop} (hPQ : ∀ s : SecretStore, s.Held → (P s ↔ Q s))
    (K : KeyFormat) {s : SecretStore} (hs : s.Held) (acts : List StoreAct) :
    EveryCycle K P s acts ↔ EveryCycle K Q s acts := by
  induction acts generalizing s with
  | nil => exact Iff.rfl
  | cons act acts ih =>
    refine and_congr ?_ (ih (hs.step act))
    exact forall_congr' fun next => imp_congr_right fun _ => hPQ s hs

/-- **No cycle of a history commits a private key exactly when** before each of them git leaves
alone every file that holds one. -/
theorem secretsKept_iff (F : Filters) (V : View) (K : KeyFormat) (r : Repo) (id : Str)
    (keystore : Bool) (generated db : Content) (acts : List StoreAct) :
    EveryCycle K (Kept F V) ((⟨r, []⟩ : SecretStore).runInit K id keystore generated db) acts ↔
      EveryCycle K (Hidden F V) ((⟨r, []⟩ : SecretStore).runInit K id keystore generated db)
        acts :=
  everyCycle_congr (fun _ hs => kept_iff hs) K
    (SecretStore.held_runInit K r id keystore generated db) acts

/-- A device whose keystore works is registered with a hub, and a cycle. -/
def exampleRegistration : List StoreAct :=
  [.hubRegister "laptop".toList true (.text []) (some ⟨.text [], none, .text "key".toList⟩),
    .cycle emptyRepo]

/-- The store of a new device before the cycle of `exampleRegistration`. -/
def exampleRegistered : SecretStore :=
  ((⟨emptyRepo, []⟩ : SecretStore).runInit (fun _ _ => true) "laptop".toList true (.text [])
    (.text [])).hubRegister (fun _ _ => true) "laptop".toList true (.text [])
      (some ⟨.text [], none, .text "key".toList⟩)

/-- Where git ignores what `.gitignore` lists, the cycle after a registration commits the key. -/
theorem deviceKeyPem_committed : ¬ ∀ (F : Filters) (V : View) (K : KeyFormat) (r : Repo)
    (id : Str) (keystore : Bool) (generated db : Content) (acts : List StoreAct),
    (∀ r p, V.ignored r p = gitignored r p) → EveryCycle K (Kept F V)
      ((⟨r, []⟩ : SecretStore).runInit K id keystore generated db) acts := by
  intro h
  obtain ⟨-, hcycle, -⟩ := h exampleFilters { exampleView with ignored := gitignored }
    (fun _ _ => true) emptyRepo "laptop".toList true (.text []) (.text []) exampleRegistration
    fun _ _ => rfl
  have hshown : gitignored exampleRegistered.repo deviceKeyPemFile = false := by decide +kernel
  have huntracked : deviceKeyPemFile ∉ exampleRegistered.repo.index := by decide +kernel
  refine hcycle emptyRepo rfl deviceKeyPemFile ((mem_cyclePaths_iff (by decide) ?_).2 ?_) ?_
  · show deviceKeyPemFile ∈ exampleRegistered.repo.worktree
    decide +kernel
  · intro hquiet
    have hignored : gitignored exampleRegistered.repo deviceKeyPemFile = true :=
      hquiet.ignored huntracked
    rw [hshown] at hignored
    cases hignored
  · show deviceKeyPemFile ∈ exampleRegistered.secrets
    decide +kernel

end Cli

end Wkp
