import Wkp.Crypto.Identity
import Wkp.Lib.Protocol

/-!
# The processes of a device agree on its identity

Any number of processes get the identity of a device at once, and any of them may stop between two
calls.

* `Crypto.Stage` : where a process is; `Crypto.follows_ensureIdentity`.
* `Crypto.fallback_agrees` : **the processes that fall back to the file agree**, and what the file has of
  an identity stays.
* `Crypto.keystore_agrees_iff` : **the processes that use the keystore agree when no two of them find it
  empty.**
-/

namespace Wkp

open Rust

namespace Crypto

variable {I : Type}

/-! ### Where a process is -/

/-- What the file has once an identity is written. -/
def IdentityKind.written (kind : IdentityKind I) (identity : I) : Str :=
  (kind.toSecretString identity).toOption.getD []

/-- Where a process is. -/
inductive Stage (I : Type)
  | looking
  | got (secret : Content)
  | absent
  | made (identity : I)
  | stored (identity : I)
  | broken
  | opened
  | read (text : Str)
  | missing
  | making (identity : I)
  | writing (identity : I) (rest : Str)
  | failed

namespace Stage

variable (kind : IdentityKind I)

/-- The calls of a process. -/
def Allowed : Stage I → IdentityCall → Prop
  | looking, .getSecret => True
  | absent, .generate => True
  | made identity, .setSecret secret => kind.toSecretString identity = .ok secret
  -- the keystore has failed
  | got _, .openFile | made _, .openFile | broken, .openFile => True
  | opened, .readToString => True
  | missing, .generate => True
  | making _, .createDirAll => True
  | making _, .createNew => True
  | writing _ rest, .write c => rest.head? = some c
  | _, _ => False

/-- Where a call leads. -/
inductive Next : Stage I → Program.Exchange (IdentityCall.Reply I) → Stage I → Prop
  | got (secret : Content) : Next looking ⟨.getSecret, .ok secret⟩ (got secret)
  | absent : Next looking ⟨.getSecret, .error .noEntry⟩ absent
  | unreachable (e : Str) : Next looking ⟨.getSecret, .error (.other e)⟩ broken
  | made (identity : I) : Next absent ⟨.generate, .ok identity⟩ (made identity)
  | notMade (e : Str) : Next absent ⟨.generate, .error e⟩ broken
  | stored (identity : I) (secret : Str) :
      Next (made identity) ⟨.setSecret secret, .ok ()⟩ (stored identity)
  | notStored (identity : I) (secret e : Str) :
      Next (made identity) ⟨.setSecret secret, .error e⟩ broken
  | opened (g : Stage I) : Next g ⟨.openFile, true⟩ opened
  | missing (g : Stage I) : Next g ⟨.openFile, false⟩ missing
  | read (text : Str) : Next opened ⟨.readToString, .ok text⟩ (read text)
  | notRead (e : Str) : Next opened ⟨.readToString, .error e⟩ failed
  | generated (identity : I) : Next missing ⟨.generate, .ok identity⟩ (making identity)
  | notGenerated (e : Str) : Next missing ⟨.generate, .error e⟩ failed
  | createDirAll (identity : I) (r : Except Str Unit) :
      Next (making identity) ⟨.createDirAll, r⟩ (making identity)
  | createNew (identity : I) :
      Next (making identity) ⟨.createNew, .ok ()⟩ (writing identity (kind.written identity))
  | notCreated (identity : I) (e : Str) : Next (making identity) ⟨.createNew, .error e⟩ failed
  | write (identity : I) (c : Char) (rest : Str) :
      Next (writing identity (c :: rest)) ⟨.write c, .ok ()⟩ (writing identity rest)
  | notWritten (identity : I) (c : Char) (rest e : Str) :
      Next (writing identity (c :: rest)) ⟨.write c, .error e⟩ failed

/-- The identity that a process returns. -/
def Returns : Stage I → I → Prop
  | got secret, a => ∃ s, secret = .text s ∧ kind.fromSecretString s = .ok a
  | stored identity, a => a = identity
  | read text, a => kind.fromSecretString (kind.fileText text) = .ok a
  | writing identity rest, a => a = identity ∧ rest = []
  | _, _ => False

/-- What the keystore leaves: an identity, or a process that can fall back to the file. -/
def Leaves : Stage I → Except Str I → Prop
  | g, .ok a => g.Returns kind a
  | g, .error _ => g.Allowed kind .openFile

section Allowed

variable {kind : IdentityKind I} {g : Stage I}

theorem eq_looking (h : g.Allowed kind .getSecret) : g = looking := by
  cases g with
  | looking => rfl
  | _ => exact h.elim

theorem eq_absent_or_missing (h : g.Allowed kind .generate) : g = absent ∨ g = missing := by
  cases g with
  | absent => exact .inl rfl
  | missing => exact .inr rfl
  | _ => exact h.elim

theorem eq_made {secret : Str} (h : g.Allowed kind (.setSecret secret)) :
    ∃ identity, g = made identity ∧ kind.toSecretString identity = .ok secret := by
  cases g with
  | made identity => exact ⟨identity, rfl, h⟩
  | _ => exact h.elim

theorem eq_opened (h : g.Allowed kind .readToString) : g = opened := by
  cases g with
  | opened => rfl
  | _ => exact h.elim

theorem eq_making (h : g.Allowed kind .createDirAll ∨ g.Allowed kind .createNew) :
    ∃ identity, g = making identity := by
  cases g with
  | making identity => exact ⟨identity, rfl⟩
  | _ => exact (or_self_iff.1 h).elim

theorem eq_writing {c : Char} (h : g.Allowed kind (.write c)) :
    ∃ identity rest, g = writing identity (c :: rest) := by
  cases g with
  | writing identity rest =>
    obtain ⟨rest, rfl⟩ := List.head?_eq_some_iff.1 h
    exact ⟨identity, rest, rfl⟩
  | _ => exact h.elim

theorem exists_next {s s' : Places} {e : Program.Exchange (IdentityCall.Reply I)}
    (h : g.Allowed kind e.1) (hexec : IdentityExec I s e s') : ∃ g', Next kind g e g' := by
  cases hexec with
  | found | absent | unreachable =>
    obtain rfl := eq_looking h
    exact ⟨_, by constructor⟩
  | set | notSet | setUnheard =>
    obtain ⟨identity, rfl, -⟩ := eq_made h
    exact ⟨_, by constructor⟩
  | generate r =>
    rcases eq_absent_or_missing h with rfl | rfl
    all_goals
      cases r with
      | ok | error => exact ⟨_, by constructor⟩
  | opened | notOpened => exact ⟨_, by constructor⟩
  | read | notRead =>
    obtain rfl := eq_opened h
    exact ⟨_, by constructor⟩
  | createDirAll =>
    obtain ⟨identity, rfl⟩ := eq_making (.inl h)
    exact ⟨_, by constructor⟩
  | createNew | notCreated =>
    obtain ⟨identity, rfl⟩ := eq_making (.inr h)
    exact ⟨_, by constructor⟩
  | write | notWritten =>
    obtain ⟨identity, rest, rfl⟩ := eq_writing h
    exact ⟨_, by constructor⟩

end Allowed

end Stage

section Follows

variable {kind : IdentityKind I}

/-- The file has been created, and a part of the secret is still to be written. -/
theorem sticks_writeAll {identity : I} (rest : Str) :
    Script.Sticks (Stage.Allowed kind) (Stage.Next kind)
      (fun g _ => g = .writing identity []) (.writing identity rest) (writeAll rest) := by
  induction rest with
  | nil => exact .pure rfl
  | cons c rest ih =>
    refine .chain ⟨rfl, fun r g' hnext => ?_⟩
    cases hnext with
    | write => exact fun _ _ => ih
    | notWritten => nofun

theorem sticks_value {α : Type} {post : Stage I → α → Prop} {g : Stage I} {x : Except Str α}
    (h : ∀ a, x = .ok a → post g a) :
    Script.Sticks (Stage.Allowed kind) (Stage.Next kind) post g (value x) :=
  h

theorem sticks_fileFallback {g : Stage I} (hg : g.Allowed kind .openFile) :
    Script.Sticks (Stage.Allowed kind) (Stage.Next kind) (Stage.Returns kind) g
      (fileFallback kind) := by
  -- a file that is there is read; otherwise a secret is made, and the file with it
  refine .chain ⟨hg, fun r g' hnext => ?_⟩
  cases hnext with
  | opened =>
    rintro b ⟨⟩
    refine .chain ⟨trivial, fun r g' hnext => ?_⟩
    cases hnext with
    | read =>
      rintro text ⟨⟩
      exact sticks_value fun a ha => ha
    | notRead => nofun
  | missing =>
    rintro b ⟨⟩
    refine .chain ⟨trivial, fun r g' hnext => ?_⟩
    cases hnext with
    | notGenerated => nofun
    | generated identity =>
      rintro _ ⟨⟩
      refine .chain ⟨trivial, fun r g' hnext => ?_⟩
      cases hnext with
      | createDirAll =>
        refine fun _ _ => .chain ⟨trivial, fun r g' hnext => ?_⟩
        cases hnext with
        | notCreated => nofun
        | createNew =>
          refine fun _ _ => .chain (sticks_value fun secret hsecret => ?_)
          have hwritten : kind.written identity = secret := by
            rw [IdentityKind.written, hsecret]
            rfl
          rw [hwritten]
          refine .bind (sticks_writeAll secret) fun g _ hdone => .pure ?_
          rw [hdone]
          exact ⟨rfl, rfl⟩

theorem follows_getOrCreate : Program.Follows (Stage.Allowed kind) (Stage.Next kind)
    (Stage.Leaves kind) .looking (getOrCreate kind).run := by
  refine ⟨trivial, fun r g' hnext => ?_⟩
  cases hnext with
  | got secret =>
    cases secret with
    | binary bytes => exact trivial
    | text s =>
      change Stage.Leaves kind (.got (.text s)) (kind.fromSecretString s)
      cases hs : kind.fromSecretString s with
      | ok a => exact ⟨s, rfl, hs⟩
      | error e => exact trivial
  | unreachable => exact trivial
  | absent =>
    refine ⟨trivial, fun r g' hnext => ?_⟩
    cases hnext with
    | notMade => exact trivial
    | made identity =>
      change Program.Follows _ _ _ _ (value (kind.toSecretString identity) >>= fun secret =>
        ExceptT.mk (request (.setSecret secret)) >>= fun _ => pure identity).run
      cases hsecret : kind.toSecretString identity with
      | error e => exact trivial
      | ok secret =>
        refine ⟨hsecret, fun r g' hnext => ?_⟩
        cases hnext with
        | stored => exact rfl
        | notStored => exact trivial

theorem follows_ensureIdentity : Program.Follows (Stage.Allowed kind) (Stage.Next kind)
    (fun g r => ∀ a, r = .ok a → g.Returns kind a) .looking (ensureIdentity kind).run := by
  refine .bind follows_getOrCreate fun g r hr => ?_
  cases r with
  | ok identity =>
    rintro a ⟨⟩
    exact hr
  | error e => exact sticks_fileFallback hr

end Follows

/-! ### The file -/

/-- A run of processes that get an identity. -/
abbrev EnsureRun (kind : IdentityKind I) :=
  Pool.Run Program.Next (IdentityExec I) fun p => p = (ensureIdentity kind).run

/-- The labels of a run. -/
abbrev EnsureEvent (I : Type) := Pool.Label (Program.Exchange (IdentityCall.Reply I))

/-- The process fell back to the file. -/
def FellBack (ls : List (EnsureEvent I)) (i : ℕ) : Prop := ∃ r, .call i ⟨.openFile, r⟩ ∈ ls

/-- What there is of the text of an identity is read as this identity, if it is read at all. -/
structure IdentityKind.Unambiguous (kind : IdentityKind I) : Prop where
  /-- A part of the text, in a file. -/
  part : ∀ identity text a, text <+: kind.written identity →
    kind.fromSecretString (kind.fileText text) = .ok a → a = identity
  /-- The whole text, in the keystore. -/
  whole : ∀ identity a, kind.fromSecretString (kind.written identity) = .ok a → a = identity

/-- The process is at the file. -/
def Stage.AtFile : Stage I → Prop
  | opened | read _ | missing | making _ | writing _ _ | failed => True
  | _ => False

theorem Stage.Next.atFile {kind : IdentityKind I} {g g' : Stage I}
    {e : Program.Exchange (IdentityCall.Reply I)} (h : Next kind g e g') :
    g'.AtFile ↔ g.AtFile ∨ ∃ r, e = ⟨.openFile, r⟩ := by
  cases h with
  | opened | missing => simp [AtFile]
  | _ => simp [AtFile]

/-- What a process knows of the file. -/
def Stage.Agrees (kind : IdentityKind I) (file : Option Str) : Stage I → Prop
  | opened => file ≠ none
  | read text => ∃ text', file = some text' ∧ text <+: text'
  | writing identity rest => ∃ text, file = some text ∧ text ++ rest = kind.written identity
  | _ => True

/-- What is known of the file. -/
structure OneFile (kind : IdentityKind I) (ls : List (EnsureEvent I)) (ghosts : ℕ → Option (Stage I))
    (s : Places) : Prop where
  /-- Who fell back is at the file. -/
  atFile : ∀ i, FellBack ls i → ∃ g, ghosts i = some g ∧ g.AtFile
  /-- The file has a part of one identity. -/
  part : ∀ text, s.file = some text → ∃ identity, text <+: kind.written identity ∧
    ∀ i rest identity', ghosts i = some (.writing identity' rest) → identity' = identity
  /-- What the processes know. -/
  agrees : ∀ i g, ghosts i = some g → g.Agrees kind s.file
  /-- One process writes. -/
  writer : ∀ i j rest rest' identity identity', ghosts i = some (.writing identity rest) →
    ghosts j = some (.writing identity' rest') → i = j

variable {kind : IdentityKind I}

theorem fellBack_append {ls : List (EnsureEvent I)} {l : EnsureEvent I} {i : ℕ} :
    FellBack (ls ++ [l]) i ↔ FellBack ls i ∨ ∃ r, l = .call i ⟨.openFile, r⟩ := by
  simp only [FellBack, List.mem_append, List.mem_singleton, exists_or, eq_comm]

section OneFile

variable {ls : List (EnsureEvent I)} {ghosts : ℕ → Option (Stage I)} {s s' : Places} {i : ℕ}
variable {g g' : Stage I}

/-- The file stays as it is, and the process that moves does not write. -/
theorem OneFile.quiet (h : OneFile kind ls ghosts s) {l : EnsureEvent I} (hfile : s'.file = s.file)
    (hat : ∀ j, FellBack (ls ++ [l]) j →
      ∃ gj, Function.update ghosts i (some g') j = some gj ∧ gj.AtFile)
    (hagrees : g'.Agrees kind s.file) (hwrites : ∀ identity rest, g' ≠ .writing identity rest) :
    OneFile kind (ls ++ [l]) (Function.update ghosts i (some g')) s' := by
  refine ⟨hat, fun text htext => ?_, fun j gj hj => ?_, ?_⟩
  · rw [hfile] at htext
    obtain ⟨identity, hpart, hall⟩ := h.part text htext
    refine ⟨identity, hpart, fun j rest identity' hj => ?_⟩
    rcases Pool.update_eq_some.1 hj with ⟨-, hj⟩ | ⟨-, hj⟩
    · exact absurd hj.symm (hwrites _ _)
    · exact hall j rest identity' hj
  · rw [hfile]
    rcases Pool.update_eq_some.1 hj with ⟨-, rfl⟩ | ⟨-, hj⟩
    · exact hagrees
    · exact h.agrees j gj hj
  · intro j k rest rest' identity identity' hj hk
    rcases Pool.update_eq_some.1 hj with ⟨-, hj⟩ | ⟨-, hj⟩
    · exact absurd hj.symm (hwrites _ _)
    rcases Pool.update_eq_some.1 hk with ⟨-, hk⟩ | ⟨-, hk⟩
    · exact absurd hk.symm (hwrites _ _)
    · exact h.writer j k rest rest' identity identity' hj hk

theorem OneFile.start (h : OneFile kind ls ghosts s) (hfree : ghosts i = none) :
    OneFile kind (ls ++ [.start i]) (Function.update ghosts i (some .looking)) s := by
  refine h.quiet rfl (fun j hj => ?_) trivial nofun
  rcases fellBack_append.1 hj with hfell | ⟨r, hr⟩
  · obtain ⟨g, hg, hat⟩ := h.atFile j hfell
    refine ⟨g, Pool.update_eq_some.2 (.inr ⟨?_, hg⟩), hat⟩
    rintro rfl
    rw [hfree] at hg
    cases hg
  · cases hr

section Call

variable {e : Program.Exchange (IdentityCall.Reply I)}

theorem OneFile.atFile_call (h : OneFile kind ls ghosts s) (hg : ghosts i = some g)
    (hnext : g.Next kind e g') : ∀ j, FellBack (ls ++ [.call i e]) j →
      ∃ gj, Function.update ghosts i (some g') j = some gj ∧ gj.AtFile := by
  intro j hj
  by_cases hne : j = i
  · subst hne
    refine ⟨g', Function.update_self .., hnext.atFile.2 ?_⟩
    rcases fellBack_append.1 hj with hfell | ⟨r, hr⟩
    · obtain ⟨gj, hgj, hatj⟩ := h.atFile j hfell
      rw [hg] at hgj
      exact .inl (Option.some.inj hgj ▸ hatj)
    · cases hr
      exact .inr ⟨r, rfl⟩
  · rw [Function.update_of_ne hne]
    rcases fellBack_append.1 hj with hfell | ⟨r, hr⟩
    · exact h.atFile j hfell
    · cases hr
      exact absurd rfl hne

theorem OneFile.call (h : OneFile kind ls ghosts s) (hg : ghosts i = some g)
    (hnext : g.Next kind e g') (hfile : s'.file = s.file) (hagrees : g'.Agrees kind s.file)
    (hwrites : ∀ identity rest, g' ≠ .writing identity rest) :
    OneFile kind (ls ++ [.call i e]) (Function.update ghosts i (some g')) s' :=
  h.quiet hfile (h.atFile_call hg hnext) hagrees hwrites

theorem OneFile.createNew (h : OneFile kind ls ghosts s) {identity : I}
    (hg : ghosts i = some (.making identity)) (hfile : s.file = none) :
    OneFile kind (ls ++ [.call i ⟨.createNew, .ok ()⟩])
      (Function.update ghosts i (some (.writing identity (kind.written identity))))
      { s with file := some [] } := by
  have hnobody : ∀ {j identity' rest}, ghosts j ≠ some (.writing identity' rest) := by
    intro j identity' rest hj
    obtain ⟨text, htext, -⟩ := h.agrees j _ hj
    rw [hfile] at htext
    cases htext
  refine ⟨h.atFile_call hg (.createNew identity), ?_, fun j gj hj => ?_, ?_⟩
  · rintro text ⟨⟩
    refine ⟨identity, List.nil_prefix, fun j rest identity' hj => ?_⟩
    rcases Pool.update_eq_some.1 hj with ⟨-, hj⟩ | ⟨-, hj⟩
    · exact (Stage.writing.inj hj).1
    · exact absurd hj hnobody
  · rcases Pool.update_eq_some.1 hj with ⟨-, rfl⟩ | ⟨-, hj⟩
    · exact ⟨[], rfl, rfl⟩
    · have hold := h.agrees j gj hj
      rw [hfile] at hold
      cases gj with
      | opened => exact absurd rfl hold
      | read text =>
        obtain ⟨text', htext, -⟩ := hold
        cases htext
      | writing identity' rest => exact absurd hj hnobody
      | _ => trivial
  · intro j k rest rest' identity₁ identity₂ hj hk
    rcases Pool.update_eq_some.1 hj with ⟨rfl, -⟩ | ⟨-, hj⟩
    · rcases Pool.update_eq_some.1 hk with ⟨rfl, -⟩ | ⟨-, hk⟩
      · rfl
      · exact absurd hk hnobody
    · exact absurd hj hnobody

theorem OneFile.write (h : OneFile kind ls ghosts s) {identity : I} {c : Char} {rest text : Str}
    (hg : ghosts i = some (.writing identity (c :: rest))) (hfile : s.file = some text) :
    OneFile kind (ls ++ [.call i ⟨.write c, .ok ()⟩])
      (Function.update ghosts i (some (.writing identity rest)))
      { s with file := some (text ++ [c]) } := by
  obtain ⟨text', htext', hwhole⟩ := h.agrees i _ hg
  obtain rfl : text = text' := Option.some.inj (hfile.symm.trans htext')
  have hwhole' : text ++ [c] ++ rest = kind.written identity := by
    rw [List.append_assoc, List.singleton_append, hwhole]
  -- only one process has the file open for writing
  have hone : ∀ {j identity' rest'}, ghosts j = some (.writing identity' rest') → j = i :=
    fun hj => h.writer _ i _ _ _ _ hj hg
  refine ⟨h.atFile_call hg (.write identity c rest), ?_, fun j gj hj => ?_, ?_⟩
  · rintro text₁ ⟨⟩
    refine ⟨identity, ⟨rest, hwhole'⟩, fun j rest' identity' hj => ?_⟩
    rcases Pool.update_eq_some.1 hj with ⟨-, hj⟩ | ⟨hne, hj⟩
    · exact (Stage.writing.inj hj).1
    · exact absurd (hone hj) hne
  · rcases Pool.update_eq_some.1 hj with ⟨-, rfl⟩ | ⟨hne, hj⟩
    · exact ⟨_, rfl, hwhole'⟩
    · have hold := h.agrees j gj hj
      cases gj with
      | opened => exact Option.some_ne_none _
      | read text₁ =>
        obtain ⟨text', htext, hpre⟩ := hold
        obtain rfl : text = text' := Option.some.inj (hfile.symm.trans htext)
        exact ⟨_, rfl, hpre.trans (List.prefix_append _ _)⟩
      | writing identity' rest' => exact absurd (hone hj) hne
      | _ => trivial
  · intro j k rest₁ rest₂ identity₁ identity₂ hj hk
    have hboth : ∀ {j identity' rest'}, Function.update ghosts i (some (.writing identity rest)) j =
        some (.writing identity' rest') → j = i := by
      intro j identity' rest' hj
      rcases Pool.update_eq_some.1 hj with ⟨rfl, -⟩ | ⟨-, hj⟩
      · rfl
      · exact hone hj
    exact (hboth hj).trans (hboth hk).symm

end Call

end OneFile

theorem rule_oneFile : Pool.Rule (IdentityExec I) (fun p => p = (ensureIdentity kind).run)
    (Stage.Allowed kind) (Stage.Next kind) (fun g r => ∀ a, r = .ok a → g.Returns kind a)
    (OneFile kind) where
  start := by
    rintro ls ghosts s i p h hfree rfl
    exact ⟨.looking, follows_ensureIdentity, h.start hfree⟩
  call := by
    rintro ls ghosts s i g e s' h hg hallowed hexec
    obtain ⟨g', hnext⟩ := Stage.exists_next hallowed hexec
    refine ⟨g', hnext, ?_⟩
    cases id hnext with
    | createNew identity =>
      cases hexec with
      | createNew hfile => exact h.createNew hg hfile
    | write identity c rest =>
      cases hexec with
      | write _ htext => exact h.write hg htext
    | opened =>
      cases hexec with
      | opened hfile => exact h.call hg hnext rfl hfile nofun
    | read text =>
      cases hexec with
      | read htext => exact h.call hg hnext rfl ⟨text, htext, List.prefix_rfl⟩ nofun
    | _ =>
      cases hexec with
      | _ => exact h.call hg hnext rfl trivial nofun

theorem oneFile_nil {s : Places} (hfile : s.file = none) :
    OneFile kind [] (fun _ => none) s where
  atFile i hi := by
    obtain ⟨r, hr⟩ := hi
    cases hr
  part text htext := by
    rw [hfile] at htext
    cases htext
  agrees i g hg := by cases hg
  writer i j rest rest' identity identity' hi := by cases hi

theorem OneFile.exists_file {ls : List (EnsureEvent I)} {ghosts : ℕ → Option (Stage I)} {s : Places}
    (h : OneFile kind ls ghosts s) {i : ℕ} {g : Stage I} {a : I} (hg : ghosts i = some g)
    (hat : g.AtFile) (ha : g.Returns kind a) : ∃ text, s.file = some text := by
  have hagrees := h.agrees i g hg
  cases g with
  | read text =>
    obtain ⟨text', htext, -⟩ := hagrees
    exact ⟨text', htext⟩
  | writing identity rest =>
    obtain ⟨text, htext, -⟩ := hagrees
    exact ⟨text, htext⟩
  | opened | missing | making | failed => exact ha.elim
  | _ => exact hat.elim

/-- What a process at the file returns is what the file has a part of. -/
theorem OneFile.returns_eq (hkind : kind.Unambiguous) {ls : List (EnsureEvent I)}
    {ghosts : ℕ → Option (Stage I)} {s : Places} (h : OneFile kind ls ghosts s) {text : Str}
    (htext : s.file = some text) {identity : I} (hpart : text <+: kind.written identity)
    (hwriters : ∀ i rest identity', ghosts i = some (.writing identity' rest) →
      identity' = identity) {i : ℕ} {g : Stage I} {a : I} (hg : ghosts i = some g)
    (hat : g.AtFile) (ha : g.Returns kind a) : a = identity := by
  have hagrees := h.agrees i g hg
  cases g with
  | read text₁ =>
    obtain ⟨text', htext', hpre⟩ := hagrees
    obtain rfl : text = text' := Option.some.inj (htext.symm.trans htext')
    exact hkind.part identity text₁ a (hpre.trans hpart) ha
  | writing identity' rest => exact ha.1.trans (hwriters i rest identity' hg)
  | opened | missing | making | failed => exact ha.elim
  | _ => exact hat.elim

/-- **The processes that fall back to the file agree**, and the file has a part of what they agree on,
whatever the keystore does, and wherever the processes stop. -/
theorem fallback_agrees (hkind : kind.Unambiguous) {s₀ : Places} (hfile : s₀.file = none)
    {ls : List (EnsureEvent I)} {pool : Pool (Program (IdentityCall.Reply I) (Except Str I)) Places}
    (run : EnsureRun kind ⟨fun _ => none, s₀⟩ ls pool) {i j : ℕ} {a b : I}
    (hi : pool.threads i = some (.pure (.ok a))) (hj : pool.threads j = some (.pure (.ok b)))
    (hfelli : FellBack ls i) (hfellj : FellBack ls j) :
    a = b ∧ ∃ text, pool.state.file = some text ∧ text <+: kind.written a := by
  obtain ⟨ghosts, hkeeps, h⟩ := run.keeps rule_oneFile Pool.keeps_nil (oneFile_nil hfile)
  have hplace : ∀ {k c}, pool.threads k = some (.pure (.ok c)) → FellBack ls k →
      ∃ g, ghosts k = some g ∧ g.AtFile ∧ g.Returns kind c := by
    intro k c hk hfell
    obtain ⟨g, hg, hreturns⟩ := hkeeps.done hk
    obtain ⟨g', hg', hat⟩ := h.atFile k hfell
    obtain rfl : g = g' := Option.some.inj (hg.symm.trans hg')
    exact ⟨g, hg, hat, hreturns c rfl⟩
  obtain ⟨gi, hgi, hati, hai⟩ := hplace hi hfelli
  obtain ⟨gj, hgj, hatj, haj⟩ := hplace hj hfellj
  obtain ⟨text, htext⟩ := h.exists_file hgi hati hai
  obtain ⟨identity, hpart, hwriters⟩ := h.part text htext
  obtain rfl := h.returns_eq hkind htext hpart hwriters hgi hati hai
  exact ⟨(h.returns_eq hkind htext hpart hwriters hgj hatj haj).symm, text, htext, hpart⟩

/-! ### The keystore -/

/-- The process found the keystore empty. -/
def FoundNone (ls : List (EnsureEvent I)) (i : ℕ) : Prop :=
  .call i ⟨.getSecret, .error .noEntry⟩ ∈ ls

/-- No two processes found the keystore empty. -/
def OneFinds (ls : List (EnsureEvent I)) : Prop :=
  ∀ i j, FoundNone ls i → FoundNone ls j → i = j

/-- The identities that are made differ. -/
def Fresh (ls : List (EnsureEvent I)) : Prop :=
  ∀ i j identity, .call i ⟨.generate, .ok identity⟩ ∈ ls → .call j ⟨.generate, .ok identity⟩ ∈ ls →
    i = j

namespace Stage

/-- The process found the keystore empty, and it is still there. -/
def Finds : Stage I → Prop
  | absent | made _ | stored _ => True
  | _ => False

/-- The process has not seen an entry. -/
def Unseen : Stage I → Prop
  | looking | got _ => False
  | _ => True

/-- What a process knows of the entry, if nobody else found none. -/
def Holds (kind : IdentityKind I) (entry : Option Content) : Stage I → Prop
  | got secret => entry = some secret
  | absent | made _ => entry = none
  | stored identity => entry = some (.text (kind.written identity))
  | _ => True

section Next

variable {kind : IdentityKind I} {g g' : Stage I} {e : Program.Exchange (IdentityCall.Reply I)}

theorem Next.unseen (h : Next kind g e g') (hg : g.Unseen ∨ e = ⟨.getSecret, .error .noEntry⟩) :
    g'.Unseen := by
  cases h with
  | got => simp [Unseen] at hg
  | _ => trivial

theorem Next.finds (h : Next kind g e g') (hg : g'.Finds) :
    g.Finds ∨ e = ⟨.getSecret, .error .noEntry⟩ := by
  cases h with
  | absent => exact .inr rfl
  | made | stored => exact .inl trivial
  | _ => exact hg.elim

theorem Next.makes (h : Next kind g e g') {identity : I}
    (hg : g' = .made identity ∨ g' = .stored identity) :
    g = .made identity ∨ e = ⟨.generate, .ok identity⟩ := by
  cases h with
  | made identity' =>
    obtain rfl : identity' = identity := by simpa using hg
    exact .inr rfl
  | stored identity' =>
    obtain rfl : identity' = identity := by simpa using hg
    exact .inl rfl
  | _ => simp at hg

theorem Next.holds {s s' : Places} (h : Next kind g e g') (hallowed : g.Allowed kind e.1)
    (hexec : IdentityExec I s e s') (hg : g.Holds kind s.keystore) : g'.Holds kind s'.keystore := by
  cases h with
  | got secret =>
    cases hexec with
    | found hk => exact hk
  | absent =>
    cases hexec with
    | absent hk => exact hk
  | made =>
    cases hexec with
    | generate => exact hg
  | stored identity secret =>
    cases hexec with
    | set =>
      have hsecret : kind.toSecretString identity = .ok secret := hallowed
      simp [Holds, IdentityKind.written, hsecret, Except.toOption]
  | _ => trivial

end Next

end Stage

theorem foundNone_append {ls : List (EnsureEvent I)} {l : EnsureEvent I} {i : ℕ} :
    FoundNone (ls ++ [l]) i ↔ FoundNone ls i ∨ l = .call i ⟨.getSecret, .error .noEntry⟩ := by
  simp only [FoundNone, List.mem_append, List.mem_singleton, eq_comm]

theorem OneFinds.of_append {ls : List (EnsureEvent I)} {l : EnsureEvent I}
    (h : OneFinds (ls ++ [l])) : OneFinds ls :=
  fun i j hi hj => h i j (foundNone_append.2 (.inl hi)) (foundNone_append.2 (.inl hj))

/-- What is known of the keystore. -/
structure OneEntry (kind : IdentityKind I) (ls : List (EnsureEvent I))
    (ghosts : ℕ → Option (Stage I)) (s : Places) : Prop where
  /-- Who found it empty has not seen an entry. -/
  unseen : ∀ i, FoundNone ls i → ∃ g, ghosts i = some g ∧ g.Unseen
  /-- Who is there without an entry found it empty. -/
  finds : ∀ i g, ghosts i = some g → g.Finds → FoundNone ls i
  /-- Who has an identity for it has made it. -/
  makes : ∀ i identity, ghosts i = some (.made identity) ∨ ghosts i = some (.stored identity) →
    .call i ⟨.generate, .ok identity⟩ ∈ ls
  /-- Who is at the file fell back to it. -/
  left : ∀ i g, ghosts i = some g → g.AtFile → FellBack ls i
  /-- What the processes know, if no two of them found it empty. -/
  holds : OneFinds ls → ∀ i g, ghosts i = some g → g.Holds kind s.keystore

section OneEntry

variable {ls : List (EnsureEvent I)} {ghosts : ℕ → Option (Stage I)} {s s' : Places} {i : ℕ}
variable {g g' : Stage I} {e : Program.Exchange (IdentityCall.Reply I)}

theorem OneEntry.update (h : OneEntry kind ls ghosts s) {l : EnsureEvent I}
    (hfree : ∀ j, FoundNone ls j → j = i → g'.Unseen)
    (hunseen : l = .call i ⟨.getSecret, .error .noEntry⟩ → g'.Unseen)
    (hothers : ∀ j, l = .call j ⟨.getSecret, .error .noEntry⟩ → j = i)
    (hfinds : g'.Finds → FoundNone (ls ++ [l]) i)
    (hmakes : ∀ identity, g' = .made identity ∨ g' = .stored identity →
      .call i ⟨.generate, .ok identity⟩ ∈ ls ++ [l])
    (hleft : g'.AtFile → FellBack (ls ++ [l]) i)
    (hholds : OneFinds (ls ++ [l]) → g'.Holds kind s'.keystore ∧
      ∀ j gj, ghosts j = some gj → j ≠ i → gj.Holds kind s'.keystore) :
    OneEntry kind (ls ++ [l]) (Function.update ghosts i (some g')) s' := by
  constructor
  · intro j hj
    by_cases hne : j = i
    · subst hne
      refine ⟨g', Function.update_self .., ?_⟩
      rcases foundNone_append.1 hj with hj | hl
      · exact hfree j hj rfl
      · exact hunseen hl
    · rw [Function.update_of_ne hne]
      rcases foundNone_append.1 hj with hj | hl
      · exact h.unseen j hj
      · exact absurd (hothers j hl) hne
  · intro j gj hj hgj
    rcases Pool.update_eq_some.1 hj with ⟨rfl, rfl⟩ | ⟨-, hj⟩
    · exact hfinds hgj
    · exact foundNone_append.2 (.inl (h.finds j gj hj hgj))
  · intro j identity hj
    by_cases hne : j = i
    · subst hne
      rw [Function.update_self, Option.some.injEq, Option.some.injEq] at hj
      exact hmakes identity hj
    · rw [Function.update_of_ne hne] at hj
      exact List.mem_append_left _ (h.makes j identity hj)
  · intro j gj hj hgj
    rcases Pool.update_eq_some.1 hj with ⟨rfl, rfl⟩ | ⟨-, hj⟩
    · exact hleft hgj
    · exact fellBack_append.2 (.inl (h.left j gj hj hgj))
  · intro hone j gj hj
    rcases Pool.update_eq_some.1 hj with ⟨rfl, rfl⟩ | ⟨hne, hj⟩
    · exact (hholds hone).1
    · exact (hholds hone).2 j gj hj hne

theorem OneEntry.start (h : OneEntry kind ls ghosts s) (hfree : ghosts i = none) :
    OneEntry kind (ls ++ [.start i]) (Function.update ghosts i (some .looking)) s := by
  refine h.update (fun j hj hji => ?_) nofun nofun nofun (by simp) nofun fun hone =>
    ⟨trivial, fun j gj hj _ => h.holds hone.of_append j gj hj⟩
  obtain ⟨g, hg, -⟩ := h.unseen j hj
  rw [hji, hfree] at hg
  cases hg

theorem OneEntry.others (h : OneEntry kind ls ghosts s) (hone : OneFinds ls)
    (hg : ghosts i = some g) (hallowed : g.Allowed kind e.1) (hexec : IdentityExec I s e s')
    {j : ℕ} {gj : Stage I} (hj : ghosts j = some gj) (hne : j ≠ i) :
    gj.Holds kind s'.keystore := by
  have hholds := h.holds hone j gj hj
  have hset : (∃ identity, g = .made identity) → gj.Holds kind s'.keystore := by
    rintro ⟨identity, rfl⟩
    -- who is about to set the entry found it empty, so that nobody else has seen it or set it
    have hnone : s.keystore = none := h.holds hone i _ hg
    have hfound : ¬ gj.Finds := fun hgj =>
      hne (hone j i (h.finds j gj hj hgj) (h.finds i _ hg trivial))
    cases gj with
    | got secret =>
      have hsome : s.keystore = some secret := hholds
      rw [hnone] at hsome
      cases hsome
    | absent | made | stored => exact absurd trivial hfound
    | _ => trivial
  cases hexec with
  | set | notSet | setUnheard =>
    obtain ⟨identity, hmade, -⟩ := Stage.eq_made hallowed
    exact hset ⟨identity, hmade⟩
  | _ => exact hholds

theorem OneEntry.call (h : OneEntry kind ls ghosts s) (hg : ghosts i = some g)
    (hallowed : g.Allowed kind e.1) (hexec : IdentityExec I s e s') (hnext : g.Next kind e g') :
    OneEntry kind (ls ++ [.call i e]) (Function.update ghosts i (some g')) s' := by
  refine h.update (fun j hj hji => ?_) (fun hl => ?_) (fun j hl => ?_) (fun hgf => ?_)
    (fun identity hgm => ?_) (fun hgl => ?_) fun hone => ⟨?_, fun j gj hj hne => ?_⟩
  · subst hji
    obtain ⟨gj, hgj, hunseen⟩ := h.unseen j hj
    obtain rfl := Option.some.inj (hg.symm.trans hgj)
    exact hnext.unseen (.inl hunseen)
  · cases hl
    exact hnext.unseen (.inr rfl)
  · cases hl
    rfl
  · rcases hnext.finds hgf with hgf | rfl
    · exact foundNone_append.2 (.inl (h.finds i g hg hgf))
    · exact foundNone_append.2 (.inr rfl)
  · rcases hnext.makes hgm with rfl | rfl
    · exact List.mem_append_left _ (h.makes i identity (.inl hg))
    · exact List.mem_append_right _ (List.mem_singleton_self _)
  · rcases hnext.atFile.1 hgl with hat | ⟨r, rfl⟩
    · exact fellBack_append.2 (.inl (h.left i g hg hat))
    · exact fellBack_append.2 (.inr ⟨r, rfl⟩)
  · exact hnext.holds hallowed hexec (h.holds hone.of_append i g hg)
  · exact h.others hone.of_append hg hallowed hexec hj hne

end OneEntry

/-- Every call keeps what is known of the keystore. -/
theorem rule_oneEntry : Pool.Rule (IdentityExec I) (fun p => p = (ensureIdentity kind).run)
    (Stage.Allowed kind) (Stage.Next kind) (fun g r => ∀ a, r = .ok a → g.Returns kind a)
    (OneEntry kind) where
  start := by
    rintro ls ghosts s i p h hfree rfl
    exact ⟨.looking, follows_ensureIdentity, h.start hfree⟩
  call := by
    rintro ls ghosts s i g e s' h hg hallowed hexec
    obtain ⟨g', hnext⟩ := Stage.exists_next hallowed hexec
    exact ⟨g', hnext, h.call hg hallowed hexec hnext⟩

theorem oneEntry_nil {s : Places} : OneEntry kind [] (fun _ => none) s where
  unseen i hi := by cases hi
  finds i g hg := by cases hg
  makes i identity hi := by rcases hi with hi | hi <;> cases hi
  left i g hg := by cases hg
  holds _ i g hg := by cases hg

theorem OneEntry.returns {ls : List (EnsureEvent I)} {ghosts : ℕ → Option (Stage I)} {s : Places}
    (h : OneEntry kind ls ghosts s) {i : ℕ} {g : Stage I} {a : I} (hg : ghosts i = some g)
    (hkept : ¬ FellBack ls i) (ha : g.Returns kind a) :
    (∃ text, g = .got (.text text) ∧ kind.fromSecretString text = .ok a) ∨ g = .stored a := by
  have hnot : ¬ g.AtFile := fun hat => hkept (h.left i g hg hat)
  cases g with
  | got secret =>
    obtain ⟨text, rfl, htext⟩ := ha
    exact .inl ⟨text, rfl, htext⟩
  | stored identity =>
    obtain rfl : a = identity := ha
    exact .inr rfl
  | read | writing => exact absurd trivial hnot
  | _ => exact ha.elim

/-- **The processes that use the keystore agree exactly when no two of them find it empty**, where those
that find it empty make different identities and get through. -/
theorem keystore_agrees_iff (hkind : kind.Unambiguous) {s₀ : Places} {ls : List (EnsureEvent I)}
    {pool : Pool (Program (IdentityCall.Reply I) (Except Str I)) Places}
    (run : EnsureRun kind ⟨fun _ => none, s₀⟩ ls pool) (hfresh : Fresh ls)
    (hends : ∀ i, FoundNone ls i →
      ¬ FellBack ls i ∧ ∃ a, pool.threads i = some (.pure (.ok a))) :
    (∀ i j a b, ¬ FellBack ls i → ¬ FellBack ls j → pool.threads i = some (.pure (.ok a)) →
      pool.threads j = some (.pure (.ok b)) → a = b) ↔ OneFinds ls := by
  obtain ⟨ghosts, hkeeps, h⟩ := run.keeps rule_oneEntry Pool.keeps_nil oneEntry_nil
  have hplace : ∀ {i a}, ¬ FellBack ls i → pool.threads i = some (.pure (.ok a)) →
      (∃ text, ghosts i = some (.got (.text text)) ∧ kind.fromSecretString text = .ok a) ∨
        ghosts i = some (.stored a) := by
    intro i a hkept hi
    obtain ⟨g, hg, hreturns⟩ := hkeeps.done hi
    rcases h.returns hg hkept (hreturns a rfl) with ⟨text, rfl, htext⟩ | rfl
    · exact .inl ⟨text, hg, htext⟩
    · exact .inr hg
  constructor
  · intro hagree i j hfi hfj
    obtain ⟨hi, a, ha⟩ := hends i hfi
    obtain ⟨hj, b, hb⟩ := hends j hfj
    obtain rfl := hagree i j a b hi hj ha hb
    -- who found no entry has not read one, so it stored its own
    have hstored : ∀ {k}, FoundNone ls k → ¬ FellBack ls k →
        pool.threads k = some (.pure (.ok a)) → ghosts k = some (.stored a) := by
      intro k hfk hk hak
      rcases hplace hk hak with ⟨text, hgot, -⟩ | hstored
      · obtain ⟨g, hg, hunseen⟩ := h.unseen k hfk
        rw [hgot] at hg
        obtain rfl := Option.some.inj hg
        exact hunseen.elim
      · exact hstored
    exact hfresh i j a (h.makes i a (.inr (hstored hfi hi ha)))
      (h.makes j a (.inr (hstored hfj hj hb)))
  · intro hone i j a b hi hj ha hb
    -- only one of them found none, so the entry never changes once it is there
    have hentry : ∀ {k g}, ghosts k = some g → g.Holds kind pool.state.keystore :=
      fun hk => h.holds hone _ _ hk
    rcases hplace hi ha with ⟨text, hgi, htext⟩ | hgi
    · rcases hplace hj hb with ⟨text', hgj, htext'⟩ | hgj
      · have hsame := (hentry hgi).symm.trans (hentry hgj)
        obtain rfl : text = text' := Content.text.inj (Option.some.inj hsame)
        exact Except.ok.inj (htext.symm.trans htext')
      · have hsame := (hentry hgi).symm.trans (hentry hgj)
        rw [Content.text.inj (Option.some.inj hsame)] at htext
        exact hkind.whole b a htext
    · rcases hplace hj hb with ⟨text', hgj, htext'⟩ | hgj
      · have hsame := (hentry hgj).symm.trans (hentry hgi)
        rw [Content.text.inj (Option.some.inj hsame)] at htext'
        exact (hkind.whole a b htext').symm
      · obtain rfl := hone i j (h.finds i _ hgi trivial) (h.finds j _ hgj trivial)
        rw [hgi] at hgj
        cases hgj
        rfl

/-! ### Two identities -/

/-- Two identities, each two characters long. -/
def exampleKind : IdentityKind Bool :=
  encryptionIdentity (fun b => if b then "k1".toList else "k2".toList) fun s =>
    if s = "k1".toList then .ok true else if s = "k2".toList then .ok false else .error []

theorem unambiguous_exampleKind : exampleKind.Unambiguous := by
  have h : ∀ identity, ∀ text ∈ (exampleKind.written identity).inits, ∀ a,
      exampleKind.fromSecretString (exampleKind.fileText text) = .ok a → a = identity := by decide
  exact ⟨fun identity text a htext => h identity text ((List.mem_inits _ _).2 htext) a, by decide⟩

/-- The answers of a device with or without a keystore, and the identity that a process makes. -/
def exampleAnswer (reachable identity : Bool) (s : Places) :
    (c : IdentityCall) → IdentityCall.Reply Bool c × Places
  | .getSecret => match reachable, s.keystore with
    | false, _ => (.error (.other []), s)
    | true, none => (.error .noEntry, s)
    | true, some secret => (.ok secret, s)
  | .setSecret secret => (.ok (), { s with keystore := some (.text secret) })
  | .generate => (.ok identity, s)
  | .openFile => (s.file.isSome, s)
  | .readToString => match s.file with
    | none => (.error [], s)
    | some text => (.ok text, s)
  | .createDirAll => (.ok (), s)
  | .createNew => match s.file with
    | none => (.ok (), { s with file := some [] })
    | some _ => (.error [], s)
  | .write c => match s.file with
    | none => (.error [], s)
    | some text => (.ok (), { s with file := some (text ++ [c]) })

theorem exec_exampleAnswer (reachable identity : Bool) (s : Places) (c : IdentityCall) :
    IdentityExec Bool s ⟨c, (exampleAnswer reachable identity s c).1⟩
      (exampleAnswer reachable identity s c).2 := by
  obtain ⟨keystore, file⟩ := s
  cases c with
  | getSecret =>
    cases reachable with
    | false => exact .unreachable _ _
    | true =>
      cases keystore with
      | none => exact .absent rfl
      | some secret => exact .found rfl
  | setSecret secret => exact .set _ _
  | generate => exact .generate _ _
  | openFile =>
    cases file with
    | none => exact .notOpened _
    | some text => exact .opened (Option.some_ne_none _)
  | readToString =>
    cases file with
    | none => exact .notRead _ _
    | some text => exact .read rfl
  | createDirAll => exact .createDirAll _ _
  | createNew =>
    cases file with
    | none => exact .createNew rfl
    | some text => exact .notCreated _ _
  | write c =>
    cases file with
    | none => exact .notWritten _ _ _
    | some text => exact .write c rfl

/-- A process that gets an identity. -/
def exampleEnsure (reachable identity : Bool) (s : Places) :
    List (Program.Exchange (IdentityCall.Reply Bool)) × Except Str Bool × Places :=
  Program.eval (exampleAnswer reachable identity) (ensureIdentity exampleKind).run s

/-- One process after another. -/
def exampleEnsures (reachable : Bool) (s : Places) : List (EnsureEvent Bool) :=
  (.start 0 :: (exampleEnsure reachable true {}).1.map (.call 0)) ++
    (.start 1 :: (exampleEnsure reachable false s).1.map (.call 1))

theorem run_exampleEnsures {reachable : Bool} {s : Places}
    (hfirst : (exampleEnsure reachable true {}).2 = (.ok true, s))
    (hsecond : (exampleEnsure reachable false s).2 = (.ok true, s)) :
    ∃ threads, EnsureRun exampleKind ⟨fun _ => none, {}⟩ (exampleEnsures reachable s) ⟨threads, s⟩ ∧
      threads 0 = some (.pure (.ok true)) ∧ threads 1 = some (.pure (.ok true)) := by
  have returns₁ := Program.returns_eval (exec_exampleAnswer reachable true)
    (ensureIdentity exampleKind).run {}
  have returns₂ := Program.returns_eval (exec_exampleAnswer reachable false)
    (ensureIdentity exampleKind).run s
  rw [exampleEnsure] at hfirst hsecond
  rw [hfirst] at returns₁
  rw [hsecond] at returns₂
  have run₁ : EnsureRun exampleKind ⟨fun _ => none, {}⟩ _ _ :=
    .of_returns (i := 0) returns₁ rfl rfl
  have run₂ := run₁.append (Pool.Run.of_returns (i := 1) returns₂
    (Function.update_of_ne Nat.one_ne_zero _ _) rfl)
  exact ⟨_, run₂, rfl, rfl⟩

/-- Without a keystore, the second process makes no identity of its own. -/
theorem fallback_agrees_example : ∃ ls pool, EnsureRun exampleKind ⟨fun _ => none, {}⟩ ls pool ∧
    ∃ text, pool.state.file = some text ∧ text <+: exampleKind.written true := by
  obtain ⟨threads, run, h₀, h₁⟩ :=
    @run_exampleEnsures false ⟨none, some "k1".toList⟩ (by decide) (by decide)
  refine ⟨_, _, run, (fallback_agrees unambiguous_exampleKind rfl run h₀ h₁ ⟨false, ?_⟩ ⟨true, ?_⟩).2⟩
  · exact List.mem_append_left _ (.tail _ (.tail _ (.head _)))
  · exact List.mem_append_right _ (.tail _ (.tail _ (.head _)))

/-- With a keystore. -/
abbrev exampleStores : List (EnsureEvent Bool) :=
  exampleEnsures true ⟨some (.text "k1".toList), none⟩

theorem exampleStores_eq : exampleStores =
    [.start 0, .call 0 ⟨.getSecret, .error .noEntry⟩, .call 0 ⟨.generate, .ok true⟩,
      .call 0 ⟨.setSecret "k1".toList, .ok ()⟩, .start 1,
      .call 1 ⟨.getSecret, .ok (.text "k1".toList)⟩] := rfl

theorem foundNone_exampleStores {i : ℕ} : FoundNone exampleStores i ↔ i = 0 := by
  simp [FoundNone, exampleStores_eq]

theorem fresh_exampleStores : Fresh exampleStores := by
  simp [Fresh, exampleStores_eq]

theorem fellBack_exampleStores {i : ℕ} : ¬ FellBack exampleStores i := by
  simp [FellBack, exampleStores_eq]

/-- With a keystore, the second process finds the entry of the first. -/
theorem keystore_agrees_iff_example : ∃ pool, EnsureRun exampleKind ⟨fun _ => none, {}⟩ exampleStores
    pool ∧ ∀ i j a b, pool.threads i = some (.pure (.ok a)) →
      pool.threads j = some (.pure (.ok b)) → a = b := by
  obtain ⟨threads, run, h₀, -⟩ :=
    @run_exampleEnsures true ⟨some (.text "k1".toList), none⟩ (by decide) (by decide)
  refine ⟨_, run, fun i j a b => ?_⟩
  refine (keystore_agrees_iff unambiguous_exampleKind run fresh_exampleStores
    fun i hi => ⟨fellBack_exampleStores, ?_⟩).2 (fun i j hi hj => ?_) i j a b
    fellBack_exampleStores fellBack_exampleStores
  · obtain rfl := foundNone_exampleStores.1 hi
    exact ⟨true, h₀⟩
  · rw [foundNone_exampleStores.1 hi, foundNone_exampleStores.1 hj]

end Crypto

end Wkp
