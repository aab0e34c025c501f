import Wkp.Cli.AtomicWrite

/-!
# Files are whole

Any number of processes write files through temporary ones, others read the files, and any of them may
stop between two calls.

* `Cli.FileStage` : where a process is; `Cli.follows_program`.
* `Cli.lastPublished` : what was published last.
* `Cli.contents_current` : **a file is what was published last, at every moment.**
* `Cli.reads_current` : **a reader gets what was published last when it began.**
-/

namespace Wkp

open Rust Frontmatter

namespace Cli

/-! ### Where a process is -/

/-- A call on files. -/
abbrev FileCall := Folder.Call FilePath UInt8

/-- A call with its reply. -/
abbrev FileExchange := Program.Exchange FileReply

/-- Where a process is. -/
inductive FileStage
  | writes (w : FileWrite)
  | filling (w : FileWrite) (n k : ℕ)
  | spoiled (w : FileWrite)
  | moved (w : FileWrite)
  | kept (w : FileWrite)
  | reads (path : FilePath) (total : ℕ)
  | reading (path : FilePath) (total n k : ℕ) (whole : List UInt8)
  | read (path : FilePath) (total : ℕ) (whole : List UInt8)
  | broken (path : FilePath) (total : ℕ) (e : Str)

/-- Where the process begins. -/
def FileJob.stage : FileJob → FileStage
  | write w => .writes w
  | read path reads => .reads path reads

/-- What a reader of the bytes returns. -/
def readResult (total : ℕ) (whole : List UInt8) : Except Str (Option Str) :=
  if whole.length < total then (textOf whole).map some else .ok none

namespace FileStage

/-- What the process does. -/
def job : FileStage → FileJob
  | writes w | filling w _ _ | spoiled w | moved w | kept w => .write w
  | reads path total | reading path total _ _ _ | read path total _ | broken path total _ =>
    .read path total

/-- The calls of a process. -/
def Allowed : FileStage → FileCall → Prop
  | writes w, .create path => path = w.temp
  | filling w n k, .writeByte m j b => m = n ∧ j = k ∧ w.bytes[k]? = some b
  | filling w _ k, .rename a b => a = w.temp ∧ b = w.dest ∧ k = w.bytes.length
  | spoiled w, .remove path => path = w.temp
  | reads path _, .openFile path' => path' = path
  | reading _ _ n k _, .readByte m j => m = n ∧ j = k
  | _, _ => False

/-- Where a call leads. -/
inductive Next : FileStage → FileExchange → FileStage → Prop
  | created (w : FileWrite) (path : FilePath) (n : ℕ) :
      Next (writes w) ⟨.create path, .ok n⟩ (filling w n 0)
  | notCreated (w : FileWrite) (path : FilePath) (e : Str) :
      Next (writes w) ⟨.create path, .error e⟩ (spoiled w)
  | wrote (w : FileWrite) (n k m j : ℕ) (b : UInt8) :
      Next (filling w n k) ⟨.writeByte m j b, .ok ()⟩ (filling w n (k + 1))
  | notWritten (w : FileWrite) (n k m j : ℕ) (b : UInt8) (e : Str) :
      Next (filling w n k) ⟨.writeByte m j b, .error e⟩ (spoiled w)
  | moved (w : FileWrite) (n k : ℕ) (a b : FilePath) :
      Next (filling w n k) ⟨.rename a b, .ok ()⟩ (moved w)
  | notMoved (w : FileWrite) (n k : ℕ) (a b : FilePath) (e : Str) :
      Next (filling w n k) ⟨.rename a b, .error e⟩ (kept w)
  | removed (w : FileWrite) (path : FilePath) (r : Except Str Unit) :
      Next (spoiled w) ⟨.remove path, r⟩ (kept w)
  | opened (path path' : FilePath) (total n : ℕ) (whole : List UInt8) :
      Next (reads path total) ⟨.openFile path', .ok n⟩ (reading path total n 0 whole)
  | notOpened (path path' : FilePath) (total : ℕ) (e : Str) :
      Next (reads path total) ⟨.openFile path', .error e⟩ (broken path total e)
  | got (path : FilePath) (total n m k j : ℕ) {whole : List UInt8} {b : UInt8}
      (h : whole[k]? = some b) : Next (reading path total n k whole) ⟨.readByte m j, .ok (some b)⟩
        (reading path total n (k + 1) whole)
  | ended (path : FilePath) (total n m k j : ℕ) {whole : List UInt8} (h : whole[k]? = none) :
      Next (reading path total n k whole) ⟨.readByte m j, .ok none⟩ (read path total whole)
  | notRead (path : FilePath) (total n m k j : ℕ) (whole : List UInt8) (e : Str) :
      Next (reading path total n k whole) ⟨.readByte m j, .error e⟩ (broken path total e)

/-- What a process returns. -/
def Returns : FileStage → Except Str (Option Str) → Prop
  | moved _, r => r = .ok none
  | kept _, r => ∃ e, r = .error e
  | reading _ total _ _ whole, r | read _ total whole, r => r = readResult total whole
  | broken _ _ e, r => r = .error e
  | _, _ => False

end FileStage

section Follows

open FileStage

theorem follows_writeFrom {w : FileWrite} {n : ℕ} (rest : List UInt8) {k : ℕ}
    (hrest : w.bytes.drop k = rest) (hk : k ≤ w.bytes.length) :
    Program.Follows Allowed Next
      (fun g r => (r = .ok () ∧ g = .filling w n w.bytes.length) ∨ ∃ e, r = .error e ∧ g = .spoiled w)
      (.filling w n k) (Folder.writeFrom n k rest : FileWork Unit).run := by
  induction rest generalizing k with
  | nil =>
    obtain rfl := le_antisymm hk (List.drop_eq_nil_iff.1 hrest)
    exact .inl ⟨rfl, rfl⟩
  | cons b rest ih =>
    have hb : w.bytes[k]? = some b := by
      rw [← List.head?_drop, hrest]
      rfl
    refine ⟨⟨rfl, rfl, hb⟩, fun r g' hnext => ?_⟩
    cases hnext with
    | wrote =>
      have hlt := (List.getElem?_eq_some_iff.1 hb).1
      refine ih ?_ hlt
      rw [← List.tail_drop, hrest]
      rfl
    | notWritten => exact .inr ⟨_, rfl, rfl⟩

theorem follows_atomicWrite (w : FileWrite) : Program.Follows Allowed Next
    (fun g r => g.Returns (r.map fun _ => none)) (.writes w) (atomicWrite w).run := by
  have hfile : Program.Follows Allowed Next
      (fun g r => (r = .ok () ∧ ∃ n, g = .filling w n w.bytes.length) ∨
        ∃ e, r = .error e ∧ g = .spoiled w)
      (.writes w) (Folder.writeFile w.temp w.bytes : FileWork Unit).run := by
    refine ⟨rfl, fun r g' hnext => ?_⟩
    cases hnext with
    | created _ _ n =>
      refine (follows_writeFrom w.bytes rfl (Nat.zero_le _)).mono fun g r hr => ?_
      exact hr.imp_left fun h => ⟨h.1, n, h.2⟩
    | notCreated => exact .inr ⟨_, rfl, rfl⟩
  refine hfile.bind fun g r hr => ?_
  rcases hr with ⟨rfl, n, rfl⟩ | ⟨e, rfl, rfl⟩
  · refine ⟨⟨rfl, rfl, rfl⟩, fun r g' hnext => ?_⟩
    cases hnext with
    | moved => exact rfl
    | notMoved => exact ⟨_, rfl⟩
  · refine ⟨rfl, fun r g' hnext => ?_⟩
    cases hnext with
    | removed => exact ⟨_, rfl⟩

theorem follows_readFrom {path : FilePath} {total n : ℕ} {whole : List UInt8} (reads : ℕ) {k : ℕ}
    (htotal : k + reads = total) (hk : k ≤ whole.length) :
    Program.Follows Allowed Next
      (fun g r => (g.Returns (readResult total whole) ∧
          r = .ok (if whole.length < total then some whole else none)) ∨
        ∃ e, r = .error e ∧ g = .broken path total e)
      (.reading path total n k whole)
      (Folder.readFrom n reads k (whole.take k) : FileWork (Option (List UInt8))).run := by
  induction reads generalizing k with
  | zero =>
    refine .inl ⟨rfl, ?_⟩
    rw [if_neg (by omega)]
  | succ reads ih =>
    refine ⟨⟨rfl, rfl⟩, fun r g' hnext => ?_⟩
    cases hnext with
    | @got _ _ _ _ _ _ _ b hb =>
      have hlt := (List.getElem?_eq_some_iff.1 hb).1
      have htake : whole.take k ++ [b] = whole.take (k + 1) := by rw [List.take_add_one, hb]; rfl
      have hrest := ih (k := k + 1) (by omega) hlt
      rw [← htake] at hrest
      exact hrest
    | ended _ _ _ _ _ _ hnone =>
      have hle := List.getElem?_eq_none_iff.1 hnone
      refine .inl ⟨rfl, ?_⟩
      rw [if_pos (by omega), List.take_of_length_le hle]
    | notRead => exact .inr ⟨_, rfl, rfl⟩

theorem follows_fsReadToString (path : FilePath) (total : ℕ) : Program.Follows Allowed Next Returns
    (.reads path total) (fsReadToString path total).run := by
  have hfile : Program.Follows Allowed Next
      (fun g r => (∃ whole, g.Returns (readResult total whole) ∧
          r = .ok (if whole.length < total then some whole else none)) ∨
        ∃ e, r = .error e ∧ g = .broken path total e)
      (.reads path total) (Folder.readFile path total : FileWork (Option (List UInt8))).run := by
    refine ⟨rfl, fun r g' hnext => ?_⟩
    cases hnext with
    | opened _ _ _ n whole =>
      refine (follows_readFrom total (Nat.zero_add _) (Nat.zero_le _)).mono fun g r hr => ?_
      exact hr.imp_left fun h => ⟨whole, h⟩
    | notOpened => exact .inr ⟨_, rfl, rfl⟩
  refine hfile.bind fun g r hr => ?_
  rcases hr with ⟨whole, hg, rfl⟩ | ⟨e, rfl, rfl⟩
  · rw [readResult] at hg
    split_ifs at hg ⊢ with hlt
    · exact hg
    · exact hg
  · exact rfl

theorem follows_program (job : FileJob) :
    Program.Follows Allowed Next Returns job.stage job.program := by
  cases job with
  | read path reads => exact follows_fsReadToString path reads
  | write w =>
    refine Program.Follows.bind (follows_atomicWrite w) fun g r hr => ?_
    cases r with
    | ok => exact hr
    | error e => exact hr

end Follows

/-! ### What is published -/

/-- What happens to the files. -/
abbrev FileEvent := Pool.Label FileExchange

/-- What the file at the path becomes. -/
def FileEvent.publishes (job : ℕ → Option FileJob) (path : FilePath) : FileEvent → Option (List UInt8)
  | .call i ⟨.rename _ dest, .ok _⟩ =>
    match job i with
    | some (.write w) => if dest = path then some w.bytes else none
    | _ => none
  | _ => none

/-- What was published last. -/
def lastPublished (job : ℕ → Option FileJob) (d₀ : Folder FilePath UInt8) (ls : List FileEvent)
    (path : FilePath) : Option (List UInt8) :=
  (ls.filterMap (FileEvent.publishes job path)).getLast?.or (d₀.contents path)

theorem lastPublished_concat {job : ℕ → Option FileJob} {d₀ : Folder FilePath UInt8}
    {ls : List FileEvent} {l : FileEvent} {path : FilePath} :
    lastPublished job d₀ (ls ++ [l]) path =
      (l.publishes job path).or (lastPublished job d₀ ls path) := by
  unfold lastPublished
  rw [List.filterMap_append, List.getLast?_append, Option.or_assoc]
  cases h : l.publishes job path with
  | none => simp [h]
  | some bytes => simp [h]

/-- The process renames its file. -/
def FileEvent.renames (i : ℕ) : FileEvent → Bool
  | .call j ⟨.rename _ _, .ok _⟩ => j == i
  | _ => false

/-- How often the process has published its file. -/
def timesPublished (i : ℕ) (ls : List FileEvent) : ℕ := ls.countP (FileEvent.renames i)

/-- The file was opened when it held these bytes. -/
def OpenedWith (job : ℕ → Option FileJob) (d₀ : Folder FilePath UInt8) (ls : List FileEvent) (i : ℕ)
    (path : FilePath) (whole : List UInt8) : Prop :=
  ∃ ls₁ n ls₂, ls = ls₁ ++ .call i ⟨.openFile path, .ok n⟩ :: ls₂ ∧
    lastPublished job d₀ ls₁ path = some whole

/-- A call of the reader failed. -/
def ReadFails (ls : List FileEvent) (i : ℕ) (e : Str) : Prop :=
  (∃ path, .call i ⟨.openFile path, .error e⟩ ∈ ls) ∨ ∃ n k, .call i ⟨.readByte n k, .error e⟩ ∈ ls

theorem OpenedWith.append {job : ℕ → Option FileJob} {d₀ : Folder FilePath UInt8}
    {ls : List FileEvent} {i : ℕ} {path : FilePath} {whole : List UInt8}
    (h : OpenedWith job d₀ ls i path whole) (l : FileEvent) :
    OpenedWith job d₀ (ls ++ [l]) i path whole := by
  obtain ⟨ls₁, n, ls₂, rfl, hwhole⟩ := h
  exact ⟨ls₁, n, ls₂ ++ [l], by rw [List.append_assoc, List.cons_append], hwhole⟩

theorem ReadFails.append {ls : List FileEvent} {i : ℕ} {e : Str} (h : ReadFails ls i e)
    (l : FileEvent) : ReadFails (ls ++ [l]) i e := by
  rcases h with ⟨path, h⟩ | ⟨n, k, h⟩
  · exact .inl ⟨path, List.mem_append_left _ h⟩
  · exact .inr ⟨n, k, List.mem_append_left _ h⟩

/-! ### The processes -/

/-- What the processes do: no two of them write with the same number at the same time, and none is after
a temporary file. -/
structure FileJobs where
  /-- What a process does. -/
  job : ℕ → Option FileJob
  /-- Writes differ in the number of the process or in the time. -/
  stamped : ∀ {i j w w'}, job i = some (.write w) → job j = some (.write w') → w.pid = w'.pid →
    w.nanos = w'.nanos → i = j
  /-- Temporary files are nobody's target. -/
  plain : ∀ {i j w job'}, job i = some (.write w) → job j = some job' → job'.target ≠ w.temp

namespace FileJobs

variable (J : FileJobs)

/-- The path is that of no temporary file. -/
def Plain (path : FilePath) : Prop := ∀ i w, J.job i = some (.write w) → path ≠ w.temp

variable {J}

theorem temp_ne {i j : ℕ} {w w' : FileWrite} (hi : J.job i = some (.write w))
    (hj : J.job j = some (.write w')) (hne : j ≠ i) : w'.temp ≠ w.temp := by
  intro h
  obtain ⟨hpid, hnanos⟩ := tempPath_stamp h
  exact hne (J.stamped hj hi hpid hnanos)

theorem plain_target {i : ℕ} {job : FileJob} (hi : J.job i = some job) : J.Plain job.target :=
  fun _ _ hw => J.plain hw hi

end FileJobs

/-! ### What the processes know -/

/-- What a process knows. -/
def FileStage.Knows (J : FileJobs) (d₀ : Folder FilePath UInt8) (ls : List FileEvent)
    (d : Folder FilePath UInt8) (i : ℕ) : FileStage → Prop
  | filling w n k => d.entries w.temp = some n ∧ d.bytes n = w.bytes.take k
  | moved w => d.entries w.temp = none
  | reading path _ n _ whole => (n < d.next ∧ d.bytes n = whole ∧
      ∀ j w, J.job j = some (.write w) → d.entries w.temp ≠ some n) ∧
    OpenedWith J.job d₀ ls i path whole
  | read path _ whole => OpenedWith J.job d₀ ls i path whole
  | broken _ _ e => ReadFails ls i e
  | _ => True

/-- How often a process has published its file. -/
def FileStage.times : FileStage → ℕ
  | moved _ => 1
  | _ => 0

/-- What is known of the files. -/
structure FilesWhole (J : FileJobs) (d₀ : Folder FilePath UInt8) (ls : List FileEvent)
    (ghosts : ℕ → Option FileStage) (d : Folder FilePath UInt8) : Prop where
  /-- Each process does its job. -/
  job : ∀ {i g}, ghosts i = some g → J.job i = some g.job
  /-- What the processes know. -/
  knows : ∀ {i g}, ghosts i = some g → g.Knows J d₀ ls d i
  /-- The files are what was published last. -/
  contents : ∀ {path}, J.Plain path → d.contents path = lastPublished J.job d₀ ls path
  /-- A file is published once. -/
  times : ∀ {i g}, ghosts i = some g → timesPublished i ls = g.times

section FilesWhole

variable {J : FileJobs} {d₀ d d' : Folder FilePath UInt8} {ls : List FileEvent}
variable {ghosts : ℕ → Option FileStage} {i j : ℕ} {g g' : FileStage} {e : FileExchange}

/-- Who waits still knows what it knew. -/
theorem FileStage.Knows.append (h : g.Knows J d₀ ls d i) (l : FileEvent) :
    g.Knows J d₀ (ls ++ [l]) d i := by
  cases g with
  | reading => exact ⟨h.1, h.2.append l⟩
  | read => exact OpenedWith.append h l
  | broken => exact ReadFails.append h l
  | _ => exact h

/-- Another process works on its own temporary file. -/
theorem FileStage.Knows.frame {w : FileWrite} {names : List FilePath} (h : g.Knows J d₀ ls d j)
    (hi : J.job i = some (.write w)) (hj : J.job j = some g.job) (hne : j ≠ i)
    (hframe : Folder.Frame w.temp names d d') (hnames : ∀ a ∈ names, a = w.temp ∨ a = w.dest) :
    g.Knows J d₀ ls d' j := by
  -- the temporary file of another process
  have hother : ∀ {k w'}, J.job k = some (.write w') → w'.temp ≠ w.temp →
      d'.entries w'.temp = d.entries w'.temp := by
    intro k w' hk htemp
    refine hframe.entries _ fun hmem => ?_
    rcases hnames _ hmem with heq | heq
    · exact htemp heq
    · exact J.plain hk hi heq.symm
  cases g with
  | filling w' n k =>
    have hw' : J.job j = some (.write w') := hj
    have htemp := FileJobs.temp_ne hi hw' hne
    refine ⟨(hother hw' htemp).trans h.1, ?_⟩
    rw [hframe.bytes n (d.lt_next h.1) fun hn => htemp (d.single h.1 hn)]
    exact h.2
  | moved w' =>
    have hw' : J.job j = some (.write w') := hj
    exact (hother hw' (FileJobs.temp_ne hi hw' hne)).trans h
  | reading path total n k whole =>
    obtain ⟨⟨hlt, hbytes, hfree⟩, hopened⟩ := h
    refine ⟨⟨hlt.trans_le hframe.next_le, ?_, fun k w' hk hn => ?_⟩, hopened⟩
    · rw [hframe.bytes n hlt (hfree i w hi)]
      exact hbytes
    · by_cases htemp : w'.temp = w.temp
      -- the name of the other process's own temporary file can only come to stand for a new file
      · rw [htemp] at hn
        rcases hframe.fresh n hn with hn | hn
        · exact hfree i w hi hn
        · omega
      · rw [hother hk htemp] at hn
        exact hfree k w' hk hn
  | _ => exact h

/-- A process that moves, and the others. -/
theorem FilesWhole.update (h : FilesWhole J d₀ ls ghosts d) (hg : ghosts i = some g)
    (hjob : g'.job = g.job) (hknows : g'.Knows J d₀ (ls ++ [.call i e]) d' i)
    (hothers : ∀ j gj, j ≠ i → ghosts j = some gj → gj.Knows J d₀ ls d' j)
    (hcontents : ∀ path, J.Plain path →
      d'.contents path = (FileEvent.publishes J.job path (.call i e)).or (d.contents path))
    (htimes : g'.times = g.times + if FileEvent.renames i (.call i e) then 1 else 0) :
    FilesWhole J d₀ (ls ++ [.call i e]) (Function.update ghosts i (some g')) d' := by
  constructor
  · intro j gj hj
    rcases Pool.update_eq_some.1 hj with ⟨rfl, rfl⟩ | ⟨-, hj⟩
    · rw [hjob]
      exact h.job hg
    · exact h.job hj
  · intro j gj hj
    rcases Pool.update_eq_some.1 hj with ⟨rfl, rfl⟩ | ⟨hne, hj⟩
    · exact hknows
    · exact (hothers j gj hne hj).append _
  · intro path hpath
    rw [hcontents path hpath, lastPublished_concat, h.contents hpath]
  · intro j gj hj
    rw [timesPublished, List.countP_append, List.countP_singleton]
    rcases Pool.update_eq_some.1 hj with ⟨rfl, rfl⟩ | ⟨hne, hj⟩
    · rw [htimes, ← h.times hg]
      rfl
    · have hnot : FileEvent.renames j (.call i e) = false := by
        unfold FileEvent.renames
        split
        · rename_i heq
          cases heq
          exact beq_eq_false_iff_ne.2 (Ne.symm hne)
        · rfl
      rw [hnot, ← h.times hj]
      rfl

theorem FilesWhole.quiet (h : FilesWhole J d₀ ls ghosts d) (hg : ghosts i = some g)
    (hjob : g'.job = g.job) (hknows : g'.Knows J d₀ (ls ++ [.call i e]) d i)
    (hpublishes : ∀ path, FileEvent.publishes J.job path (.call i e) = none)
    (htimes : g'.times = g.times + if FileEvent.renames i (.call i e) then 1 else 0) :
    FilesWhole J d₀ (ls ++ [.call i e]) (Function.update ghosts i (some g')) d :=
  h.update hg hjob hknows (fun _ _ _ hj => h.knows hj)
    (fun path _ => by rw [hpublishes, Option.none_or]) htimes

theorem FilesWhole.work (h : FilesWhole J d₀ ls ghosts d) (hg : ghosts i = some g)
    (hjob : g'.job = g.job) {w : FileWrite} (hw : g.job = .write w)
    (hframe : Folder.Frame w.temp [w.temp] d d')
    (hknows : g'.Knows J d₀ (ls ++ [.call i e]) d' i)
    (hpublishes : ∀ path, FileEvent.publishes J.job path (.call i e) = none)
    (htimes : g'.times = g.times + if FileEvent.renames i (.call i e) then 1 else 0) :
    FilesWhole J d₀ (ls ++ [.call i e]) (Function.update ghosts i (some g')) d' := by
  have hi : J.job i = some (.write w) := hw ▸ h.job hg
  refine h.update hg hjob hknows (fun j gj hne hj => ?_) (fun path hpath => ?_) htimes
  · exact (h.knows hj).frame hi (h.job hj) hne hframe fun a ha => .inl (List.mem_singleton.1 ha)
  · have hne := hpath i w hi
    have hout : path ∉ [w.temp] := mt List.mem_singleton.1 hne
    rw [hpublishes, Option.none_or, hframe.contents_eq hout hne]

theorem FilesWhole.rename (h : FilesWhole J d₀ ls ghosts d) {w : FileWrite} {n : ℕ}
    (hg : ghosts i = some (.filling w n w.bytes.length)) :
    FilesWhole J d₀ (ls ++ [.call i ⟨.rename w.temp w.dest, .ok ()⟩])
      (Function.update ghosts i (some (.moved w))) (d.rename w.temp w.dest) := by
  have hi : J.job i = some (.write w) := h.job hg
  have hne : w.temp ≠ w.dest := (J.plain hi hi).symm
  have hframe := Folder.frame_rename d hne
  obtain ⟨hentry, hbytes⟩ := h.knows hg
  refine h.update hg rfl (Folder.entries_rename_left d hne) (fun j gj hj hgj => ?_)
    (fun path hpath => ?_) (by simp [FileStage.times, FileEvent.renames])
  · exact (h.knows hgj).frame hi (h.job hgj) hj hframe fun a ha => by simpa using ha
  · by_cases hdest : w.dest = path
    · subst hdest
      rw [Folder.contents_rename_self, Folder.contents, hentry, Option.map_some, hbytes,
        List.take_length]
      simp [FileEvent.publishes, hi]
    · have hnone :
          FileEvent.publishes J.job path (.call i ⟨.rename w.temp w.dest, .ok ()⟩) = none := by
        simp [FileEvent.publishes, hi, hdest]
      have hout : path ∉ [w.temp, w.dest] := by
        simp [hpath i w hi, Ne.symm hdest]
      rw [hnone, Option.none_or, hframe.contents_eq hout (hpath i w hi)]

theorem FilesWhole.opened (h : FilesWhole J d₀ ls ghosts d) {path : FilePath} {total n : ℕ}
    (hg : ghosts i = some (.reads path total)) (hn : d.entries path = some n) :
    FilesWhole J d₀ (ls ++ [.call i ⟨.openFile path, .ok n⟩])
      (Function.update ghosts i (some (.reading path total n 0 (d.bytes n)))) d := by
  have hplain : J.Plain path := FileJobs.plain_target (h.job hg)
  refine h.quiet hg rfl ⟨⟨d.lt_next hn, rfl, fun j w hj hw => ?_⟩, ls, n, [], rfl, ?_⟩
    (fun _ => rfl) rfl
  · exact hplain j w hj (d.single hn hw)
  · rw [← h.contents hplain, Folder.contents, hn, Option.map_some]

theorem FilesWhole.wrote (h : FilesWhole J d₀ ls ghosts d) {w : FileWrite} {n k : ℕ} {b : UInt8}
    (hg : ghosts i = some (.filling w n k)) (hb : w.bytes[k]? = some b) :
    FilesWhole J d₀ (ls ++ [.call i ⟨.writeByte n k b, .ok ()⟩])
      (Function.update ghosts i (some (.filling w n (k + 1)))) (d.writeAt n k b) := by
  obtain ⟨hentry, hbytes⟩ := h.knows hg
  -- the offset of the process is the end of the file
  have hlength : (d.bytes n).length = k := by
    rw [hbytes, List.length_take_of_le (List.getElem?_eq_some_iff.1 hb).1.le]
  refine h.work hg rfl rfl (Folder.frame_writeAt hentry k b) ⟨hentry, ?_⟩ (fun _ => rfl) rfl
  have hwritten := Folder.bytes_writeAt_length d n b
  rw [hlength] at hwritten
  rw [hwritten, hbytes, List.take_add_one, hb]
  rfl

/-! ### The calls of each stage -/

section Calls

variable (h : FilesWhole J d₀ ls ghosts d) (hg : ghosts i = some g) (hallowed : g.Allowed e.1)
  (hexec : Folder.Exec d e d')

include h hg hallowed hexec

theorem FilesWhole.call_writes {w : FileWrite} (hstage : g = .writes w) : ∃ g', g.Next e g' ∧
    FilesWhole J d₀ (ls ++ [.call i e]) (Function.update ghosts i (some g')) d' := by
  subst hstage
  cases hexec with
  | created name =>
    obtain rfl : name = w.temp := hallowed
    -- a temporary file that somebody left there is emptied
    obtain ⟨hentry, hbytes⟩ := Folder.create_spec d w.temp
    exact ⟨_, .created w _ _, h.work hg rfl rfl (Folder.frame_create d w.temp) ⟨hentry, hbytes⟩
      (fun _ => rfl) rfl⟩
  | notCreated name e =>
    exact ⟨_, .notCreated w _ e, h.quiet hg rfl trivial (fun _ => rfl) rfl⟩
  | _ => exact hallowed.elim

theorem FilesWhole.call_filling {w : FileWrite} {n k : ℕ} (hstage : g = .filling w n k) :
    ∃ g', g.Next e g' ∧
      FilesWhole J d₀ (ls ++ [.call i e]) (Function.update ghosts i (some g')) d' := by
  subst hstage
  cases hexec with
  | wrote m j b =>
    obtain ⟨rfl, rfl, hb⟩ := hallowed
    exact ⟨_, .wrote w _ _ _ _ b, h.wrote hg hb⟩
  | notWritten m j b e =>
    exact ⟨_, .notWritten w n k _ _ b e, h.quiet hg rfl trivial (fun _ => rfl) rfl⟩
  | renamed hentry =>
    obtain ⟨rfl, rfl, rfl⟩ := hallowed
    exact ⟨_, .moved w n _ _ _, h.rename hg⟩
  | notRenamed a b e =>
    exact ⟨_, .notMoved w n k _ _ e, h.quiet hg rfl trivial (fun _ => rfl) rfl⟩
  | _ => exact hallowed.elim

theorem FilesWhole.call_spoiled {w : FileWrite} (hstage : g = .spoiled w) : ∃ g', g.Next e g' ∧
    FilesWhole J d₀ (ls ++ [.call i e]) (Function.update ghosts i (some g')) d' := by
  subst hstage
  cases hexec with
  | removed hentry =>
    obtain rfl := hallowed
    exact ⟨_, .removed w _ _, h.work hg rfl rfl (Folder.frame_remove d w.temp) trivial
      (fun _ => rfl) rfl⟩
  | notRemoved name e => exact ⟨_, .removed w _ _, h.quiet hg rfl trivial (fun _ => rfl) rfl⟩
  | _ => exact hallowed.elim

theorem FilesWhole.call_reads {path : FilePath} {total : ℕ} (hstage : g = .reads path total) :
    ∃ g', g.Next e g' ∧
      FilesWhole J d₀ (ls ++ [.call i e]) (Function.update ghosts i (some g')) d' := by
  subst hstage
  cases hexec with
  | opened hn =>
    obtain rfl := hallowed
    exact ⟨_, .opened _ _ total _ _, h.opened hg hn⟩
  | notOpened name e =>
    refine ⟨_, .notOpened path _ total e, h.quiet hg rfl (.inl ⟨name, ?_⟩) (fun _ => rfl) rfl⟩
    exact List.mem_append_right _ (List.mem_singleton_self _)
  | _ => exact hallowed.elim

theorem FilesWhole.call_reading {path : FilePath} {total n k : ℕ} {whole : List UInt8}
    (hstage : g = .reading path total n k whole) : ∃ g', g.Next e g' ∧
      FilesWhole J d₀ (ls ++ [.call i e]) (Function.update ghosts i (some g')) d' := by
  subst hstage
  have hknows := h.knows hg
  cases hexec with
  | read m j =>
    obtain ⟨rfl, rfl⟩ := hallowed
    -- the file that the reader has open still holds what it held, whatever its name stands for now
    cases hb : (d.bytes m)[j]? with
    | some b =>
      have hwhole : whole[j]? = some b := hknows.1.2.1 ▸ hb
      exact ⟨_, .got path total _ _ _ _ hwhole, h.quiet hg rfl ⟨hknows.1, hknows.2.append _⟩
        (fun _ => rfl) rfl⟩
    | none =>
      have hwhole : whole[j]? = none := hknows.1.2.1 ▸ hb
      exact ⟨_, .ended path total _ _ _ _ hwhole, h.quiet hg rfl (hknows.2.append _)
        (fun _ => rfl) rfl⟩
  | notRead m j e =>
    refine ⟨_, .notRead path total n _ k _ whole e,
      h.quiet hg rfl (.inr ⟨m, j, ?_⟩) (fun _ => rfl) rfl⟩
    exact List.mem_append_right _ (List.mem_singleton_self _)
  | _ => exact hallowed.elim

end Calls

end FilesWhole

/-- Every call keeps what is known of the files. -/
theorem rule_filesWhole (J : FileJobs) (d₀ : Folder FilePath UInt8) :
    Pool.Rule Folder.Exec (fun _ => False) FileStage.Allowed FileStage.Next FileStage.Returns
      (FilesWhole J d₀) where
  start := by
    rintro ls ghosts d i p - - ⟨⟩
  call := by
    intro ls ghosts d i g e d' h hg hallowed hexec
    cases g with
    | writes w => exact h.call_writes hg hallowed hexec rfl
    | filling w n k => exact h.call_filling hg hallowed hexec rfl
    | spoiled w => exact h.call_spoiled hg hallowed hexec rfl
    | reads path total => exact h.call_reads hg hallowed hexec rfl
    | reading path total n k whole => exact h.call_reading hg hallowed hexec rfl
    | _ => exact hallowed.elim

/-! ### Every run -/

/-- A run of the processes. -/
abbrev FileRun (J : FileJobs) (d₀ : Folder FilePath UInt8) :=
  Pool.Run Program.Next Folder.Exec (fun _ => False)
    ⟨fun i => (J.job i).map FileJob.program, d₀⟩

theorem filesWhole_of_run {J : FileJobs} {d₀ : Folder FilePath UInt8} {ls : List FileEvent}
    {pool : Pool (Program FileReply (Except Str (Option Str))) (Folder FilePath UInt8)}
    (run : FileRun J d₀ ls pool) : ∃ ghosts,
      Pool.Keeps FileStage.Allowed FileStage.Next FileStage.Returns ghosts pool.threads ∧
        FilesWhole J d₀ ls ghosts pool.state := by
  have hstages : Pool.Keeps FileStage.Allowed FileStage.Next FileStage.Returns
      (fun i => (J.job i).map FileJob.stage) fun i => (J.job i).map FileJob.program := by
    intro i
    cases hi : J.job i with
    | none => exact .inl ⟨by simp [hi], by simp [hi]⟩
    | some job => exact .inr ⟨_, _, by simp [hi], by simp [hi], follows_program job⟩
  refine run.keeps (rule_filesWhole J d₀) hstages ?_
  · have hstage : ∀ {i g}, (J.job i).map FileJob.stage = some g →
        ∃ job, J.job i = some job ∧ job.stage = g := fun h => Option.map_eq_some_iff.1 h
    constructor
    · intro i g hg
      obtain ⟨job, hi, rfl⟩ := hstage hg
      rw [hi]
      cases job with
      | write | read => rfl
    · intro i g hg
      obtain ⟨job, hi, rfl⟩ := hstage hg
      cases job with
      | write | read => trivial
    · exact fun _ => rfl
    · intro i g hg
      obtain ⟨job, hi, rfl⟩ := hstage hg
      cases job with
      | write | read => rfl

/-! ### A file that is written while it is read -/

/-- A file. -/
def exampleFile : FilePath := ["a.md".toList]

/-- It is written. -/
def exampleFileWrite : FileWrite := ⟨exampleFile, "new".toList, 7, 1⟩

/-- One process writes, another one reads. -/
def exampleFileJob (i : ℕ) : Option FileJob :=
  if i = 0 then some (.write exampleFileWrite)
  else if i = 1 then some (.read exampleFile 9)
  else none

theorem exampleFileJob_eq_some {i : ℕ} {job : FileJob} (h : exampleFileJob i = some job) :
    (i = 0 ∧ job = .write exampleFileWrite) ∨ job = .read exampleFile 9 := by
  unfold exampleFileJob at h
  split_ifs at h with h₀ h₁
  · exact .inl ⟨h₀, (Option.some.inj h).symm⟩
  · exact .inr (Option.some.inj h).symm

theorem exampleFile_ne_temp : exampleFile ≠ exampleFileWrite.temp :=
  tempPath_ne_of_md rfl (by decide) _ _ _

/-- The two processes. -/
def exampleFileJobs : FileJobs where
  job := exampleFileJob
  stamped := by
    intro i j w w' hi hj _ _
    rcases exampleFileJob_eq_some hi with ⟨rfl, -⟩ | h
    · rcases exampleFileJob_eq_some hj with ⟨rfl, -⟩ | h
      · rfl
      · cases h
    · cases h
  plain := by
    intro i j w job' hi hj
    rcases exampleFileJob_eq_some hi with ⟨-, hw⟩ | h
    · obtain rfl := FileJob.write.inj hw
      rcases exampleFileJob_eq_some hj with ⟨-, rfl⟩ | rfl
      · exact exampleFile_ne_temp
      · exact exampleFile_ne_temp
    · cases h

/-- The file as it is at first. -/
def exampleFolder : Folder FilePath UInt8 :=
  ((Folder.empty FilePath UInt8).add exampleFile).setBytes 0 (utf8 "old".toList)

/-- The reader opens the file. -/
def exampleOpening : List FileExchange × Program FileReply (Except Str (Option Str)) ×
    Folder FilePath UInt8 :=
  Program.stop (Folder.answer []) 1 (FileJob.read exampleFile 9).program exampleFolder

/-- The writer writes it. -/
def exampleWriting : List FileExchange × Except Str (Option Str) × Folder FilePath UInt8 :=
  Program.eval (Folder.answer []) (FileJob.write exampleFileWrite).program exampleOpening.2.2

/-- The reader reads on. -/
def exampleReading : List FileExchange × Except Str (Option Str) × Folder FilePath UInt8 :=
  Program.eval (Folder.answer []) exampleOpening.2.1 exampleWriting.2.2

theorem run_exampleFiles : ∃ ls pool, FileRun exampleFileJobs exampleFolder ls pool ∧
    pool.threads 0 = some (.pure (.ok none)) ∧
    pool.threads 1 = some (.pure (.ok (some "old".toList))) := by
  have hopening : Trace.Run (Program.Step Folder.Exec) (_, exampleFolder) exampleOpening.1
      (exampleOpening.2.1, exampleOpening.2.2) := Program.run_stop (Folder.exec_answer []) 1 _ _
  have hwriting : Program.Returns Folder.Exec _ exampleOpening.2.2 exampleWriting.1
      exampleWriting.2.1 exampleWriting.2.2 := Program.returns_eval (Folder.exec_answer []) _ _
  have hreading : Program.Returns Folder.Exec exampleOpening.2.1 exampleWriting.2.2
      exampleReading.1 exampleReading.2.1 exampleReading.2.2 :=
    Program.returns_eval (Folder.exec_answer []) _ _
  have hwritten : exampleWriting.2.1 = .ok none := by decide
  have hread : exampleReading.2.1 = .ok (some "old".toList) := by decide
  rw [hwritten] at hwriting
  rw [hread] at hreading
  have run₁ : FileRun exampleFileJobs exampleFolder _ _ := .of_program (i := 1) hopening rfl
  have run₂ := run₁.append (Pool.Run.of_program (i := 0) hwriting rfl)
  have run₃ := run₂.append (Pool.Run.of_program (i := 1) hreading rfl)
  exact ⟨_, _, run₃, rfl, rfl⟩

/-! ### Readers and writers -/

/-- **A file is what was published last, at every moment**: what the last rename that succeeded gave
it, whole, or what it was at first.  A write that succeeds publishes once and leaves no temporary file;
one that fails publishes nothing. -/
theorem contents_current {J : FileJobs} {d₀ : Folder FilePath UInt8} {ls : List FileEvent}
    {pool : Pool (Program FileReply (Except Str (Option Str))) (Folder FilePath UInt8)}
    (run : FileRun J d₀ ls pool) :
    (∀ path, J.Plain path → pool.state.contents path = lastPublished J.job d₀ ls path) ∧
      ∀ i w r, J.job i = some (.write w) → pool.threads i = some (.pure r) →
        (r = .ok none ∧ timesPublished i ls = 1 ∧ pool.state.contents w.temp = none) ∨
          ∃ e, r = .error e ∧ timesPublished i ls = 0 := by
  obtain ⟨ghosts, hkeeps, h⟩ := filesWhole_of_run run
  refine ⟨fun path hpath => h.contents hpath, fun i w r hi hr => ?_⟩
  obtain ⟨g, hg, hreturns⟩ := hkeeps.done hr
  have hjob : g.job = .write w := Option.some.inj ((h.job hg).symm.trans hi)
  have htimes := h.times hg
  have hknows := h.knows hg
  cases g with
  | moved w' =>
    obtain rfl : w' = w := by simpa [FileStage.job] using hjob
    have hentry : pool.state.entries w'.temp = none := hknows
    exact .inl ⟨hreturns, htimes, by rw [Folder.contents, hentry, Option.map_none]⟩
  | kept w' =>
    obtain ⟨e, rfl⟩ := hreturns
    exact .inr ⟨e, rfl, htimes⟩
  | writes | filling | spoiled | reads => exact hreturns.elim
  | reading | read | broken => simp [FileStage.job] at hjob

/-- The file is what the writer gave it. -/
theorem contents_current_example : ∃ ls pool, FileRun exampleFileJobs exampleFolder ls pool ∧
    pool.state.contents exampleFile = lastPublished exampleFileJob exampleFolder ls exampleFile ∧
    timesPublished 0 ls = 1 := by
  obtain ⟨ls, pool, run, h₀, -⟩ := run_exampleFiles
  obtain ⟨hcontents, hwrites⟩ := contents_current run
  have hplain : exampleFileJobs.Plain exampleFile :=
    @FileJobs.plain_target exampleFileJobs 1 (.read exampleFile 9) rfl
  refine ⟨ls, pool, run, hcontents exampleFile hplain, ?_⟩
  rcases hwrites 0 exampleFileWrite _ rfl h₀ with ⟨-, htimes, -⟩ | ⟨e, he, -⟩
  · exact htimes
  · cases he

/-- **A reader gets what was published last when it opened the file**, whole, whatever is published
while it reads, unless one of its calls fails. -/
theorem reads_current {J : FileJobs} {d₀ : Folder FilePath UInt8} {ls : List FileEvent}
    {pool : Pool (Program FileReply (Except Str (Option Str))) (Folder FilePath UInt8)}
    (run : FileRun J d₀ ls pool) {i : ℕ} {path : FilePath} {reads : ℕ}
    (hi : J.job i = some (.read path reads)) {r : Except Str (Option Str)}
    (hr : pool.threads i = some (.pure r)) :
    (∃ e, r = .error e ∧ ReadFails ls i e) ∨
      ∃ whole, OpenedWith J.job d₀ ls i path whole ∧ r = readResult reads whole := by
  obtain ⟨ghosts, hkeeps, h⟩ := filesWhole_of_run run
  obtain ⟨g, hg, hreturns⟩ := hkeeps.done hr
  have hjob : g.job = .read path reads := Option.some.inj ((h.job hg).symm.trans hi)
  have hknows := h.knows hg
  cases g with
  | reading path' total n k whole =>
    obtain ⟨rfl, rfl⟩ : path' = path ∧ total = reads := by simpa [FileStage.job] using hjob
    exact .inr ⟨whole, hknows.2, hreturns⟩
  | read path' total whole =>
    obtain ⟨rfl, rfl⟩ : path' = path ∧ total = reads := by simpa [FileStage.job] using hjob
    exact .inr ⟨whole, hknows, hreturns⟩
  | broken path' total e => exact .inl ⟨e, hreturns, hknows⟩
  | reads => exact hreturns.elim
  | writes | filling | spoiled | moved | kept => simp [FileStage.job] at hjob

/-- The reader gets what the file was when it opened it. -/
theorem reads_current_example : ∃ ls pool, FileRun exampleFileJobs exampleFolder ls pool ∧
    ∃ whole, OpenedWith exampleFileJob exampleFolder ls 1 exampleFile whole ∧
      readResult 9 whole = .ok (some "old".toList) := by
  obtain ⟨ls, pool, run, -, h₁⟩ := run_exampleFiles
  rcases reads_current (i := 1) run rfl h₁ with ⟨e, he, -⟩ | ⟨whole, hopened, hresult⟩
  · cases he
  · exact ⟨ls, pool, run, whole, hopened, hresult.symm⟩

end Cli

end Wkp
