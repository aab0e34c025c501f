import Mathlib.Data.List.TakeDrop
import Mathlib.Data.List.TakeWhile
import Wkp.Lib.Rely

/-!
# A directory and its open files

A name stands for a file, and can stand for another one later.  Who has a file open keeps it, whatever
its name stands for by then.

* `Folder` : files by name; `Folder.contents`.
* `Folder.Call`, `Folder.Exec` : what processes do with them, a byte at a time.
* `Folder.writeFile`, `Folder.readFile` : a file is written, a file is read.
* `Folder.Frame` : what a process changes that works on one name; `Folder.ends_writeFile`.
-/

/-- Files by name.  A file that lost its name is still there for those that have it open. -/
structure Folder (N β : Type) where
  /-- The file that a name stands for. -/
  entries : N → Option ℕ
  /-- What the file holds. -/
  bytes : ℕ → List β
  /-- The number of the next new file. -/
  next : ℕ
  /-- The files with names are not new. -/
  lt_next : ∀ {name n}, entries name = some n → n < next
  /-- A file has one name. -/
  single : ∀ {a b n}, entries a = some n → entries b = some n → a = b

namespace Folder

variable {N β ε : Type}

/-- What a name stands for. -/
def contents (d : Folder N β) (name : N) : Option (List β) := (d.entries name).map d.bytes

/-- No files. -/
def empty (N β : Type) : Folder N β := ⟨fun _ => none, fun _ => [], 0, nofun, nofun⟩

/-! ### Calls -/

/-- The file holds something else. -/
def setBytes (d : Folder N β) (n : ℕ) (bytes : List β) : Folder N β :=
  { d with bytes := Function.update d.bytes n bytes }

section Operations

variable [DecidableEq N]

/-- The name stands for a new file. -/
def add (d : Folder N β) (name : N) : Folder N β where
  entries := Function.update d.entries name (some d.next)
  bytes := Function.update d.bytes d.next []
  next := d.next + 1
  lt_next := by
    intro a n ha
    by_cases h : a = name
    · rw [h, Function.update_self] at ha
      exact Option.some.inj ha ▸ Nat.lt_succ_self d.next
    · rw [Function.update_of_ne h] at ha
      exact Nat.lt_succ_of_lt (d.lt_next ha)
  single := by
    intro a b n ha hb
    by_cases h : a = name <;> by_cases h' : b = name
    · rw [h, h']
    · rw [h, Function.update_self] at ha
      rw [Function.update_of_ne h'] at hb
      exact absurd (d.lt_next hb) (by simp [← Option.some.inj ha])
    · rw [h', Function.update_self] at hb
      rw [Function.update_of_ne h] at ha
      exact absurd (d.lt_next ha) (by simp [← Option.some.inj hb])
    · rw [Function.update_of_ne h] at ha
      rw [Function.update_of_ne h'] at hb
      exact d.single ha hb

/-- The name stands for nothing. -/
def remove (d : Folder N β) (name : N) : Folder N β where
  entries := Function.update d.entries name none
  bytes := d.bytes
  next := d.next
  lt_next := by
    intro a n ha
    by_cases h : a = name
    · rw [h, Function.update_self] at ha
      cases ha
    · rw [Function.update_of_ne h] at ha
      exact d.lt_next ha
  single := by
    intro a b n ha hb
    by_cases h : a = name
    · rw [h, Function.update_self] at ha
      cases ha
    by_cases h' : b = name
    · rw [h', Function.update_self] at hb
      cases hb
    · rw [Function.update_of_ne h] at ha
      rw [Function.update_of_ne h'] at hb
      exact d.single ha hb

theorem entries_remove (d : Folder N β) (name : N) :
    (d.remove name).entries = Function.update d.entries name none := rfl

/-- The second name stands for what the first one stood for. -/
def rename (d : Folder N β) (a b : N) : Folder N β where
  entries := Function.update (d.remove a).entries b (d.entries a)
  bytes := d.bytes
  next := d.next
  lt_next := by
    intro c n hc
    by_cases h : c = b
    · rw [h, Function.update_self] at hc
      exact d.lt_next hc
    · rw [Function.update_of_ne h] at hc
      exact (d.remove a).lt_next hc
  single := by
    -- no name that is left stands for the file that moves
    have hmoved : ∀ {c n}, (d.remove a).entries c = some n → d.entries a ≠ some n := by
      intro c n hc ha
      by_cases h : c = a
      · rw [h, entries_remove, Function.update_self] at hc
        cases hc
      · rw [entries_remove, Function.update_of_ne h] at hc
        exact h (d.single hc ha)
    intro c c' n hc hc'
    by_cases h : c = b <;> by_cases h' : c' = b
    · rw [h, h']
    · rw [h, Function.update_self] at hc
      rw [Function.update_of_ne h'] at hc'
      exact absurd hc (hmoved hc')
    · rw [h', Function.update_self] at hc'
      rw [Function.update_of_ne h] at hc
      exact absurd hc' (hmoved hc)
    · rw [Function.update_of_ne h] at hc
      rw [Function.update_of_ne h'] at hc'
      exact (d.remove a).single hc hc'

theorem entries_rename (d : Folder N β) (a b : N) :
    (d.rename a b).entries = Function.update (Function.update d.entries a none) b (d.entries a) := rfl

/-- A file is created, or the one that the name stands for is emptied. -/
def create (d : Folder N β) (name : N) : ℕ × Folder N β :=
  match d.entries name with
  | some n => (n, d.setBytes n [])
  | none => (d.next, d.add name)

/-- A byte is written at an offset.  What is skipped is filled. -/
def writeAt [Inhabited β] (d : Folder N β) (n k : ℕ) (b : β) : Folder N β :=
  d.setBytes n ((d.bytes n).takeD k default ++ b :: (d.bytes n).drop (k + 1))

end Operations

/-- A call. -/
inductive Call (N β : Type)
  | create (name : N)
  | writeByte (n k : ℕ) (b : β)
  | openFile (name : N)
  | readByte (n k : ℕ)
  | rename (a b : N)
  | remove (name : N)
  deriving DecidableEq

variable (ε) in
/-- The reply to a call. -/
abbrev Call.Reply : Call N β → Type
  | create _ | openFile _ => Except ε ℕ
  | readByte _ _ => Except ε (Option β)
  | writeByte _ _ _ | rename _ _ | remove _ => Except ε Unit

/-- A call.  Each of them can fail at any time. -/
inductive Exec [DecidableEq N] [Inhabited β] :
    Folder N β → Program.Exchange (@Call.Reply N β ε) → Folder N β → Prop
  | created (d : Folder N β) (name : N) :
      Exec d ⟨.create name, .ok (d.create name).1⟩ (d.create name).2
  | notCreated (d : Folder N β) (name : N) (e : ε) : Exec d ⟨.create name, .error e⟩ d
  | wrote (d : Folder N β) (n k : ℕ) (b : β) :
      Exec d ⟨.writeByte n k b, .ok ()⟩ (d.writeAt n k b)
  | notWritten (d : Folder N β) (n k : ℕ) (b : β) (e : ε) :
      Exec d ⟨.writeByte n k b, .error e⟩ d
  | opened {d : Folder N β} {name : N} {n : ℕ} (h : d.entries name = some n) :
      Exec d ⟨.openFile name, .ok n⟩ d
  | notOpened (d : Folder N β) (name : N) (e : ε) : Exec d ⟨.openFile name, .error e⟩ d
  | read (d : Folder N β) (n k : ℕ) : Exec d ⟨.readByte n k, .ok (d.bytes n)[k]?⟩ d
  | notRead (d : Folder N β) (n k : ℕ) (e : ε) : Exec d ⟨.readByte n k, .error e⟩ d
  | renamed {d : Folder N β} {a b : N} (h : d.entries a ≠ none) :
      Exec d ⟨.rename a b, .ok ()⟩ (d.rename a b)
  | notRenamed (d : Folder N β) (a b : N) (e : ε) : Exec d ⟨.rename a b, .error e⟩ d
  | removed {d : Folder N β} {name : N} (h : d.entries name ≠ none) :
      Exec d ⟨.remove name, .ok ()⟩ (d.remove name)
  | notRemoved (d : Folder N β) (name : N) (e : ε) : Exec d ⟨.remove name, .error e⟩ d

/-- The answer to a call that only fails when it must. -/
def answer [DecidableEq N] [Inhabited β] (e : ε) (d : Folder N β) :
    (c : Call N β) → c.Reply ε × Folder N β
  | .create name => (.ok (d.create name).1, (d.create name).2)
  | .writeByte n k b => (.ok (), d.writeAt n k b)
  | .openFile name => ((d.entries name).elim (.error e) .ok, d)
  | .readByte n k => (.ok (d.bytes n)[k]?, d)
  | .rename a b => if d.entries a = none then (.error e, d) else (.ok (), d.rename a b)
  | .remove name => if d.entries name = none then (.error e, d) else (.ok (), d.remove name)

theorem exec_answer [DecidableEq N] [Inhabited β] (e : ε) (d : Folder N β) (c : Call N β) :
    Exec d ⟨c, (d.answer e c).1⟩ (d.answer e c).2 := by
  cases c with
  | create name => exact .created d name
  | writeByte n k b => exact .wrote d n k b
  | readByte n k => exact .read d n k
  | openFile name =>
    change Exec d ⟨.openFile name, (d.entries name).elim (.error e) .ok⟩ d
    cases h : d.entries name with
    | none => exact .notOpened d name e
    | some n => exact .opened h
  | rename a b =>
    by_cases h : d.entries a = none
    · have hanswer : d.answer e (.rename a b) = (.error e, d) := if_pos h
      rw [hanswer]
      exact .notRenamed d a b e
    · have hanswer : d.answer e (.rename a b) = (.ok (), d.rename a b) := if_neg h
      rw [hanswer]
      exact .renamed h
  | remove name =>
    by_cases h : d.entries name = none
    · have hanswer : d.answer e (.remove name) = (.error e, d) := if_pos h
      rw [hanswer]
      exact .notRemoved d name e
    · have hanswer : d.answer e (.remove name) = (.ok (), d.remove name) := if_neg h
      rw [hanswer]
      exact .removed h

/-! ### Files that are written and read -/

/-- A program that works on files. -/
abbrev Work (N β ε α : Type) := Script (@Call.Reply N β ε) ε α

/-- Make a call. -/
def request (c : Call N β) : Program (@Call.Reply N β ε) (c.Reply ε) := Program.perform c

/-- `write_all`, byte by byte, from an offset. -/
def writeFrom (n : ℕ) : ℕ → List β → Work N β ε Unit
  | _, [] => pure ()
  | k, b :: rest => do
    ExceptT.mk (request (.writeByte n k b))
    writeFrom n (k + 1) rest

/-- `std::fs::write`. -/
def writeFile (name : N) (bytes : List β) : Work N β ε Unit := do
  let n ← ExceptT.mk (request (.create name))
  writeFrom n 0 bytes

/-- `read_to_end`, byte by byte, for a number of reads, unless that is too few. -/
def readFrom (n : ℕ) : ℕ → ℕ → List β → Work N β ε (Option (List β))
  | 0, _, _ => pure none
  | reads + 1, k, bytes => do
    match ← ExceptT.mk (request (.readByte n k)) with
    | none => pure (some bytes)
    | some b => readFrom n reads (k + 1) (bytes ++ [b])

/-- `std::fs::read`. -/
def readFile (name : N) (reads : ℕ) : Work N β ε (Option (List β)) := do
  let n ← ExceptT.mk (request (.openFile name))
  readFrom n reads 0 []

/-! ### What a process changes -/

/-- What a process changes that writes to the file of a name, and gives other names to it. -/
structure Frame (name : N) (names : List N) (d d' : Folder N β) : Prop where
  /-- Other names stand for what they stood for. -/
  entries : ∀ a, a ∉ names → d'.entries a = d.entries a
  /-- Other files hold what they held. -/
  bytes : ∀ n < d.next, d.entries name ≠ some n → d'.bytes n = d.bytes n
  /-- The name stands for a new file, if it stands for another one. -/
  fresh : ∀ n, d'.entries name = some n → d.entries name = some n ∨ d.next ≤ n
  /-- Old files stay old. -/
  next_le : d.next ≤ d'.next

section Frame

variable {d d' : Folder N β} {name : N} {names : List N}

theorem Frame.refl (name : N) (names : List N) (d : Folder N β) : Frame name names d d :=
  ⟨fun _ _ => rfl, fun _ _ _ => rfl, fun _ h => .inl h, le_rfl⟩

theorem Frame.trans {d₁ : Folder N β} (h : Frame name names d d₁) (h' : Frame name names d₁ d') :
    Frame name names d d' := by
  refine ⟨fun a ha => (h'.entries a ha).trans (h.entries a ha), fun n hn hne => ?_, fun n hn => ?_,
    h.next_le.trans h'.next_le⟩
  · refine (h'.bytes n (hn.trans_le h.next_le) fun hn' => ?_).trans (h.bytes n hn hne)
    rcases h.fresh n hn' with hold | hnew
    · exact hne hold
    · omega
  · rcases h'.fresh n hn with hn | hnew
    · exact h.fresh n hn
    · exact .inr (h.next_le.trans hnew)

theorem Frame.contents_eq (h : Frame name names d d') {a : N} (ha : a ∉ names) (hne : a ≠ name) :
    d'.contents a = d.contents a := by
  rw [contents, contents, h.entries a ha]
  cases hn : d.entries a with
  | none => rfl
  | some n => exact congrArg some (h.bytes n (d.lt_next hn) fun hname => hne (d.single hn hname))

@[simp] theorem bytes_setBytes_self (d : Folder N β) (n : ℕ) (bytes : List β) :
    (d.setBytes n bytes).bytes n = bytes := Function.update_self ..

theorem bytes_setBytes_of_ne (d : Folder N β) {m n : ℕ} (h : m ≠ n) (bytes : List β) :
    (d.setBytes n bytes).bytes m = d.bytes m := Function.update_of_ne h ..

theorem frame_setBytes {n : ℕ} (hn : d.entries name = some n) (bytes : List β) :
    Frame name [name] d (d.setBytes n bytes) := by
  refine ⟨fun _ _ => rfl, fun m _ hm => bytes_setBytes_of_ne d ?_ bytes, fun _ h => .inl h, le_rfl⟩
  rintro rfl
  exact hm hn

theorem frame_writeAt [Inhabited β] {n : ℕ} (hn : d.entries name = some n) (k : ℕ) (b : β) :
    Frame name [name] d (d.writeAt n k b) :=
  frame_setBytes hn _

theorem bytes_writeAt_length [Inhabited β] (d : Folder N β) (n : ℕ) (b : β) :
    (d.writeAt n (d.bytes n).length b).bytes n = d.bytes n ++ [b] := by
  rw [writeAt, bytes_setBytes_self, List.takeD_eq_take _ le_rfl, List.take_length,
    List.drop_eq_nil_of_le (Nat.le_succ _)]

variable [DecidableEq N]

theorem create_spec (d : Folder N β) (name : N) :
    (d.create name).2.entries name = some (d.create name).1 ∧
      (d.create name).2.bytes (d.create name).1 = [] := by
  unfold create
  cases hn : d.entries name with
  | some n => exact ⟨hn, bytes_setBytes_self ..⟩
  | none => exact ⟨Function.update_self .., Function.update_self ..⟩

theorem frame_add (d : Folder N β) (name : N) : Frame name [name] d (d.add name) := by
  refine ⟨fun a ha => ?_, fun n hn _ => Function.update_of_ne hn.ne .., fun n h => ?_, Nat.le_succ _⟩
  · exact Function.update_of_ne (List.ne_of_not_mem_cons ha) ..
  · have hnew : (d.add name).entries name = some d.next := Function.update_self ..
    rw [hnew] at h
    exact .inr (Option.some.inj h).le

theorem frame_create (d : Folder N β) (name : N) : Frame name [name] d (d.create name).2 := by
  unfold create
  cases hn : d.entries name with
  | some n => exact frame_setBytes hn []
  | none => exact frame_add d name

theorem frame_remove (d : Folder N β) (name : N) : Frame name [name] d (d.remove name) := by
  refine ⟨fun a ha => ?_, fun _ _ _ => rfl, fun n h => ?_, le_rfl⟩
  · exact Function.update_of_ne (List.ne_of_not_mem_cons ha) ..
  · rw [entries_remove, Function.update_self] at h
    cases h

@[simp] theorem contents_rename_self (d : Folder N β) (a b : N) :
    (d.rename a b).contents b = d.contents a := by
  rw [contents, entries_rename, Function.update_self]
  rfl

theorem entries_rename_left (d : Folder N β) {a b : N} (h : a ≠ b) :
    (d.rename a b).entries a = none := by
  rw [entries_rename, Function.update_of_ne h, Function.update_self]

theorem frame_rename (d : Folder N β) {a b : N} (hne : a ≠ b) :
    Frame a [a, b] d (d.rename a b) := by
  refine ⟨fun c hc => ?_, fun _ _ _ => rfl, fun n h => ?_, le_rfl⟩
  · simp only [List.mem_cons, List.not_mem_nil, or_false, not_or] at hc
    rw [entries_rename, Function.update_of_ne hc.2, Function.update_of_ne hc.1]
  · rw [entries_rename_left d hne] at h
    cases h

end Frame

/-! ### A file that is written by one process alone -/

section Alone

variable [DecidableEq N] [Inhabited β] {d d' : Folder N β} {name : N}

theorem ends_writeFrom {n : ℕ} (rest : List β) {k : ℕ} {r : Except ε Unit}
    (hn : d.entries name = some n) (hk : (d.bytes n).length = k)
    (h : Program.Ends Exec (writeFrom n k rest : Work N β ε Unit).run d r d') :
    Frame name [name] d d' ∧ d'.entries name = some n ∧
      (r = .ok () → d'.bytes n = d.bytes n ++ rest) := by
  induction rest generalizing d k with
  | nil =>
    obtain ⟨rfl, rfl⟩ := Program.ends_pure.1 h
    exact ⟨.refl .., hn, fun _ => (List.append_nil _).symm⟩
  | cons b rest ih =>
    obtain ⟨r₁, d₁, hexec, h⟩ := Program.ends_call.1 h
    cases hexec with
    | wrote =>
      subst hk
      have hbytes := bytes_writeAt_length d n b
      obtain ⟨hframe, hentry, hrest⟩ := ih (d := d.writeAt n (d.bytes n).length b) hn
        (by rw [hbytes, List.length_append, List.length_singleton]) h
      refine ⟨(frame_writeAt hn _ b).trans hframe, hentry, fun hr => ?_⟩
      rw [hrest hr, hbytes, List.append_assoc, List.singleton_append]
    | notWritten =>
      obtain ⟨rfl, rfl⟩ := Program.ends_pure.1 h
      exact ⟨.refl .., hn, nofun⟩

/-- What `std::fs::write` does: the file holds the bytes, or something failed. -/
theorem ends_writeFile {bytes : List β} {r : Except ε Unit}
    (h : Program.Ends Exec (writeFile name bytes : Work N β ε Unit).run d r d') :
    Frame name [name] d d' ∧ (r = .ok () → d'.contents name = some bytes) := by
  obtain ⟨r₁, d₁, hexec, h⟩ := Program.ends_call.1 h
  cases hexec with
  | created =>
    obtain ⟨hentry, hempty⟩ := create_spec d name
    obtain ⟨hframe, hentry', hbytes⟩ := ends_writeFrom bytes hentry (by rw [hempty]; rfl) h
    refine ⟨(frame_create d name).trans hframe, fun hr => ?_⟩
    rw [contents, hentry', Option.map_some, hbytes hr, hempty, List.nil_append]
  | notCreated =>
    obtain ⟨rfl, rfl⟩ := Program.ends_pure.1 h
    exact ⟨.refl .., nofun⟩

end Alone

end Folder
