import Mathlib.Logic.Function.Basic
import Wkp.Lib.Trace

/-!
# Programs that make calls

A program is a tree of calls, each with what the program does with every reply.  What the calls do to
the state is a parameter, so that a program can run alone, stop anywhere, or share its state.

* `Program` : the programs, a monad.
* `Program.Next` : a program makes its first call.
* `Program.Returns` : a whole run of a program that runs alone.
* `Program.Follows` : a program keeps to a protocol; `Program.Follows.bind`, `Program.Follows.step`,
  `Program.Follows.of_returns`.
* `Pool`, `Pool.Step` : processes that share the state, one call of one process at a time.
* `Pool.play`, `Pool.run_of_play` : a schedule of the processes, and the run that it is.
* `Pool.Run.simulate` : **processes whose programs are those of named stages run as the stages do.**
-/

/-- A program: what it returns, or a call and what it does with the reply. -/
inductive Program {Call : Type} (Reply : Call → Type) (α : Type) : Type
  | pure (a : α)
  | call (c : Call) (k : Reply c → Program Reply α)

namespace Program

variable {Call : Type} {Reply : Call → Type} {α β γ σ : Type}

/-- One program after another. -/
def bind (p : Program Reply α) (f : α → Program Reply β) : Program Reply β :=
  match p with
  | .pure a => f a
  | .call c k => .call c fun r => (k r).bind f

instance : Monad (Program Reply) where
  pure := .pure
  bind := .bind

/-- Make one call and return its reply. -/
def perform (c : Call) : Program Reply (Reply c) := .call c .pure

@[simp] theorem pure_bind (a : α) (f : α → Program Reply β) :
    (Program.pure a : Program Reply α).bind f = f a := rfl

@[simp] theorem call_bind (c : Call) (k : Reply c → Program Reply α) (f : α → Program Reply β) :
    (Program.call c k).bind f = .call c fun r => (k r).bind f := rfl

@[simp] theorem perform_bind (c : Call) (f : Reply c → Program Reply β) :
    (perform c).bind f = .call c f := rfl

/-- A call with its reply. -/
abbrev Exchange {Call : Type} (Reply : Call → Type) := Σ c, Reply c

/-- The program makes its first call. -/
inductive Next : Program Reply α → Exchange Reply → Program Reply α → Prop
  | call (c : Call) (k : Reply c → Program Reply α) (r : Reply c) : Next (.call c k) ⟨c, r⟩ (k r)

theorem not_next_pure {a : α} {e : Exchange Reply} {p : Program Reply α} :
    ¬ Next (.pure a) e p := by
  intro h
  cases h

theorem next_call {c : Call} {k : Reply c → Program Reply α} {e : Exchange Reply}
    {p : Program Reply α} : Next (.call c k) e p ↔ ∃ r, e = ⟨c, r⟩ ∧ p = k r := by
  constructor
  · intro h
    cases h with
    | call _ _ r => exact ⟨r, rfl, rfl⟩
  · rintro ⟨r, rfl, rfl⟩
    exact .call c k r

/-! ### A program that runs alone -/

variable (exec : σ → Exchange Reply → σ → Prop)

/-- One call of the program. -/
def Step (s : Program Reply α × σ) (e : Exchange Reply) (s' : Program Reply α × σ) : Prop :=
  Next s.1 e s'.1 ∧ exec s.2 e s'.2

/-- The program runs to its end. -/
def Returns (p : Program Reply α) (s : σ) (es : List (Exchange Reply)) (a : α) (s' : σ) : Prop :=
  Trace.Run (Step exec) (p, s) es (.pure a, s')

variable {exec}

theorem returns_pure {a b : α} {s s' : σ} {es : List (Exchange Reply)} :
    Returns exec (.pure a) s es b s' ↔ es = [] ∧ a = b ∧ s = s' := by
  constructor
  · intro h
    cases h with
    | nil => exact ⟨rfl, rfl, rfl⟩
    | cons hstep _ => exact absurd hstep.1 not_next_pure
  · rintro ⟨rfl, rfl, rfl⟩
    exact .nil _

theorem returns_call {c : Call} {k : Reply c → Program Reply α} {s s' : σ}
    {es : List (Exchange Reply)} {a : α} : Returns exec (.call c k) s es a s' ↔
      ∃ r s₁ es', es = ⟨c, r⟩ :: es' ∧ exec s ⟨c, r⟩ s₁ ∧ Returns exec (k r) s₁ es' a s' := by
  constructor
  · intro h
    cases h with
    | @cons _ s₁ _ _ _ hstep hrun =>
      obtain ⟨p, s₁⟩ := s₁
      obtain ⟨hnext, hexec⟩ := hstep
      obtain ⟨r, rfl, rfl⟩ := next_call.1 hnext
      exact ⟨r, s₁, _, rfl, hexec, hrun⟩
  · rintro ⟨r, s₁, es', rfl, hexec, hrun⟩
    exact .cons ⟨.call c k r, hexec⟩ hrun

theorem Returns.mono {exec' : σ → Exchange Reply → σ → Prop}
    (hexec : ∀ s e s', exec s e s' → exec' s e s') {p : Program Reply α} {s s' : σ}
    {es : List (Exchange Reply)} {a : α} (h : Returns exec p s es a s') :
    Returns exec' p s es a s' := by
  have hmap : Trace.Run (Step exec') (p, s) (es.map id) (.pure a, s') :=
    h.map id fun _ _ _ hstep => ⟨hstep.1, hexec _ _ _ hstep.2⟩
  rwa [List.map_id] at hmap

theorem returns_bind {p : Program Reply α} {f : α → Program Reply β} {s s' : σ}
    {es : List (Exchange Reply)} {b : β} : Returns exec (p.bind f) s es b s' ↔
      ∃ es₁ es₂ a s₁, es = es₁ ++ es₂ ∧ Returns exec p s es₁ a s₁ ∧
        Returns exec (f a) s₁ es₂ b s' := by
  induction p generalizing s es with
  | pure a =>
    constructor
    · exact fun h => ⟨[], es, a, s, rfl, .nil _, h⟩
    · rintro ⟨es₁, es₂, a', s₁, rfl, h₁, h₂⟩
      obtain ⟨rfl, rfl, rfl⟩ := returns_pure.1 h₁
      exact h₂
  | call c k ih =>
    rw [call_bind, returns_call]
    constructor
    · rintro ⟨r, s₁, es', rfl, hexec, h⟩
      obtain ⟨es₁, es₂, a, s₂, rfl, h₁, h₂⟩ := (ih r).1 h
      exact ⟨⟨c, r⟩ :: es₁, es₂, a, s₂, rfl, returns_call.2 ⟨r, s₁, es₁, rfl, hexec, h₁⟩, h₂⟩
    · rintro ⟨es₁, es₂, a, s₂, rfl, h₁, h₂⟩
      obtain ⟨r, s₁, es', rfl, hexec, h₁⟩ := returns_call.1 h₁
      exact ⟨r, s₁, es' ++ es₂, rfl, hexec, (ih r).2 ⟨es', es₂, a, s₂, rfl, h₁, h₂⟩⟩

theorem exists_returns_pure (a : α) (s : σ) : ∃ es, Returns exec (.pure a) s es a s := ⟨[], .nil _⟩

theorem exists_returns_call {c : Call} {k : Reply c → Program Reply α} {s s₁ s' : σ} {r : Reply c}
    {a : α} (hexec : exec s ⟨c, r⟩ s₁) (h : ∃ es, Returns exec (k r) s₁ es a s') :
    ∃ es, Returns exec (.call c k) s es a s' := by
  obtain ⟨es, hes⟩ := h
  exact ⟨⟨c, r⟩ :: es, returns_call.2 ⟨r, s₁, es, rfl, hexec, hes⟩⟩

/-- All calls that the program can make. -/
def Calls (P : Call → Prop) : Program Reply α → Prop
  | .pure _ => True
  | .call c k => P c ∧ ∀ r, (k r).Calls P

theorem Calls.bind {P : Call → Prop} {p : Program Reply α} (hp : p.Calls P)
    {f : α → Program Reply β} (hf : ∀ a, (f a).Calls P) : (p.bind f).Calls P := by
  induction p with
  | pure a => exact hf a
  | call c k ih => exact ⟨hp.1, fun r => ih r (hp.2 r)⟩

theorem Calls.exists_returns {P : Call → Prop} {p : Program Reply α} (hp : p.Calls P)
    (hanswer : ∀ s c, P c → ∃ r s', exec s ⟨c, r⟩ s') (s : σ) :
    ∃ a s' es, Returns exec p s es a s' := by
  induction p generalizing s with
  | pure a => exact ⟨a, s, [], .nil _⟩
  | call c k ih =>
    obtain ⟨r, s₁, hexec⟩ := hanswer s c hp.1
    obtain ⟨a, s', h⟩ := ih r (hp.2 r) s₁
    exact ⟨a, s', exists_returns_call hexec h⟩

/-- The run of a program whose calls are answered by a function. -/
def eval (answer : σ → (c : Call) → Reply c × σ) :
    Program Reply α → σ → List (Exchange Reply) × α × σ
  | .pure a, s => ([], a, s)
  | .call c k, s =>
    let (r, s₁) := answer s c
    let (es, a, s') := eval answer (k r) s₁
    (⟨c, r⟩ :: es, a, s')

theorem eval_call (answer : σ → (c : Call) → Reply c × σ) (c : Call) (k : Reply c → Program Reply α)
    (s : σ) : ((Program.call c k).eval answer s).2 =
      ((k (answer s c).1).eval answer (answer s c).2).2 := rfl

theorem eval_bind (answer : σ → (c : Call) → Reply c × σ) (p : Program Reply α)
    (f : α → Program Reply β) (s : σ) : ((p.bind f).eval answer s).2 =
      ((f (p.eval answer s).2.1).eval answer (p.eval answer s).2.2).2 := by
  induction p generalizing s with
  | pure a => rfl
  | call c k ih => exact ih _ _

theorem Calls.returns_eval {P : Call → Prop} {answer : σ → (c : Call) → Reply c × σ}
    {p : Program Reply α} (hp : p.Calls P)
    (h : ∀ s c, P c → exec s ⟨c, (answer s c).1⟩ (answer s c).2) (s : σ) :
    Returns exec p s (p.eval answer s).1 (p.eval answer s).2.1 (p.eval answer s).2.2 := by
  induction p generalizing s with
  | pure a => exact .nil _
  | call c k ih => exact .cons ⟨.call c k _, h s c hp.1⟩ (ih _ (hp.2 _) _)

theorem calls_true (p : Program Reply α) : p.Calls fun _ => True := by
  induction p with
  | pure a => trivial
  | call c k ih => exact ⟨trivial, ih⟩

theorem returns_eval {answer : σ → (c : Call) → Reply c × σ}
    (h : ∀ s c, exec s ⟨c, (answer s c).1⟩ (answer s c).2) (p : Program Reply α) (s : σ) :
    Returns exec p s (p.eval answer s).1 (p.eval answer s).2.1 (p.eval answer s).2.2 :=
  p.calls_true.returns_eval (fun s c _ => h s c) s

/-- The run of a program that stops after a number of calls. -/
def stop (answer : σ → (c : Call) → Reply c × σ) :
    ℕ → Program Reply α → σ → List (Exchange Reply) × Program Reply α × σ
  | 0, p, s => ([], p, s)
  | _ + 1, .pure a, s => ([], .pure a, s)
  | n + 1, .call c k, s =>
    let (r, s₁) := answer s c
    let (es, p, s') := stop answer n (k r) s₁
    (⟨c, r⟩ :: es, p, s')

theorem run_stop {answer : σ → (c : Call) → Reply c × σ}
    (h : ∀ s c, exec s ⟨c, (answer s c).1⟩ (answer s c).2) (n : ℕ) (p : Program Reply α) (s : σ) :
    Trace.Run (Step exec) (p, s) (stop answer n p s).1
      ((stop answer n p s).2.1, (stop answer n p s).2.2) := by
  induction n generalizing p s with
  | zero => exact .nil _
  | succ n ih =>
    cases p with
    | pure a => exact .nil _
    | call c k => exact .cons ⟨.call c k _, h s c⟩ (ih _ _)

/-! ### Protocols -/

section Protocol

variable {G : Type} {allowed : G → Call → Prop} {next : G → Exchange Reply → G → Prop}

variable (allowed next) in
/-- The program keeps to a protocol: it makes the calls that are allowed in the state of the protocol,
and returns what is promised in that state.  A reply that leads to no state is assumed away. -/
def Follows (post : G → α → Prop) : G → Program Reply α → Prop
  | g, .pure a => post g a
  | g, .call c k => allowed g c ∧ ∀ r g', next g ⟨c, r⟩ g' → Follows post g' (k r)

theorem Follows.mono {post post' : G → α → Prop} (hpost : ∀ g a, post g a → post' g a) {g : G}
    {p : Program Reply α} (hp : Follows allowed next post g p) : Follows allowed next post' g p := by
  induction p generalizing g with
  | pure a => exact hpost g a hp
  | call c k ih => exact ⟨hp.1, fun r g' hg' => ih r (hp.2 r g' hg')⟩

theorem Follows.bind {mid : G → α → Prop} {post : G → β → Prop} {g : G} {p : Program Reply α}
    {f : α → Program Reply β} (hp : Follows allowed next mid g p)
    (hf : ∀ g a, mid g a → Follows allowed next post g (f a)) :
    Follows allowed next post g (p.bind f) := by
  induction p generalizing g with
  | pure a => exact hf g a hp
  | call c k ih => exact ⟨hp.1, fun r g' hg' => ih r (hp.2 r g' hg')⟩

theorem Follows.step {post : G → α → Prop} {g g' : G} {p p' : Program Reply α}
    {e : Exchange Reply} (hp : Follows allowed next post g p) (hnext : Next p e p')
    (hg : next g e g') : allowed g e.1 ∧ Follows allowed next post g' p' := by
  cases hnext with
  | call c k r => exact ⟨hp.1, hp.2 r g' hg⟩

theorem Follows.allowed_of_next {post : G → α → Prop} {g : G} {p p' : Program Reply α}
    {e : Exchange Reply} (hp : Follows allowed next post g p) (hnext : Next p e p') :
    allowed g e.1 := by
  cases hnext with
  | call c k r => exact hp.1

/-- **A run keeps to the protocol.**  What the calls keep, of the state of the protocol, the calls so
far and the state, holds at the end, with what the program promises. -/
theorem Follows.of_returns {exec : σ → Exchange Reply → σ → Prop} {post : G → α → Prop}
    {I : G → List (Exchange Reply) → σ → Prop}
    (hstep : ∀ g hist s e s', I g hist s → allowed g e.1 → exec s e s' →
      ∃ g', next g e g' ∧ I g' (hist ++ [e]) s')
    {p : Program Reply α} {g : G} (hp : Follows allowed next post g p) {hist es : List (Exchange Reply)}
    {s s' : σ} {a : α} (hI : I g hist s) (run : Returns exec p s es a s') :
    ∃ g', post g' a ∧ I g' (hist ++ es) s' := by
  induction p generalizing g hist s es with
  | pure b =>
    obtain ⟨rfl, rfl, rfl⟩ := returns_pure.1 run
    rw [List.append_nil]
    exact ⟨g, hp, hI⟩
  | call c k ih =>
    obtain ⟨r, s₁, es, rfl, hexec, run⟩ := returns_call.1 run
    obtain ⟨g', hg', hI'⟩ := hstep g hist s ⟨c, r⟩ s₁ hI hp.1 hexec
    have hrest := ih r (hp.2 r g' hg') hI' run
    rwa [List.append_assoc, List.singleton_append] at hrest

end Protocol

end Program

/-! ### Processes that share the state -/

/-- The processes that were started, each with its own state, and the state that they share. -/
structure Pool (L σ : Type) where
  /-- The processes. -/
  threads : ℕ → Option L
  /-- The shared state. -/
  state : σ

namespace Pool

variable {L L' E σ : Type}

/-- What happens in the pool. -/
inductive Label (E : Type)
  | start (i : ℕ)
  | call (i : ℕ) (e : E)

theorem update_eq_some {β : Type} {f : ℕ → Option β} {i j : ℕ} {a b : β} :
    Function.update f i (some a) j = some b ↔ (j = i ∧ b = a) ∨ (j ≠ i ∧ f j = some b) := by
  by_cases hj : j = i
  · simp [hj, eq_comm]
  · simp [hj]

variable (next : L → E → L → Prop) (exec : σ → E → σ → Prop) (starts : L → Prop)

/-- A process starts, or makes its next call. -/
inductive Step : Pool L σ → Label E → Pool L σ → Prop
  | start {threads : ℕ → Option L} (s : σ) {i : ℕ} {p : L} (hfree : threads i = none)
      (hstart : starts p) : Step ⟨threads, s⟩ (.start i) ⟨Function.update threads i (some p), s⟩
  | call {threads : ℕ → Option L} {s s' : σ} {i : ℕ} {p p' : L} {e : E}
      (hthread : threads i = some p) (hnext : next p e p') (hexec : exec s e s') :
      Step ⟨threads, s⟩ (.call i e) ⟨Function.update threads i (some p'), s'⟩

/-- A run of the pool. -/
abbrev Run := Trace.Run (Step next exec starts)

variable {next exec starts}

/-- A program that runs while the others wait. -/
theorem Run.of_program {Call α : Type} {Reply : Call → Type}
    {exec : σ → Program.Exchange Reply → σ → Prop} {starts : Program Reply α → Prop}
    {es : List (Program.Exchange Reply)} {i : ℕ} {p : Program Reply α × σ}
    {p' : Program Reply α × σ} (run : Trace.Run (Program.Step exec) p es p')
    {threads : ℕ → Option (Program Reply α)} (hi : threads i = some p.1) :
    Run Program.Next exec starts ⟨threads, p.2⟩ (es.map (.call i))
      ⟨Function.update threads i (some p'.1), p'.2⟩ := by
  induction run generalizing threads with
  | nil p =>
    rw [← hi, Function.update_eq_self]
    exact .nil _
  | @cons p p₁ p₂ e es hstep _ ih =>
    refine .cons (.call hi hstep.1 hstep.2) ?_
    have hrun := ih (Function.update_self i (some p₁.1) threads)
    rwa [Function.update_idem] at hrun

theorem Run.of_start {Call α : Type} {Reply : Call → Type}
    {exec : σ → Program.Exchange Reply → σ → Prop} {starts : Program Reply α → Prop}
    {es : List (Program.Exchange Reply)} {i : ℕ} {p p' : Program Reply α} {s s' : σ}
    (h : Trace.Run (Program.Step exec) (p, s) es (p', s')) {threads : ℕ → Option (Program Reply α)}
    (hfree : threads i = none) (hstart : starts p) :
    Run Program.Next exec starts ⟨threads, s⟩ (.start i :: es.map (.call i))
      ⟨Function.update threads i (some p'), s'⟩ := by
  refine .cons (.start s hfree hstart) ?_
  have hrun := @Run.of_program _ _ _ _ _ starts _ _ _ _ h _ (Function.update_self i (some p) threads)
  rwa [Function.update_idem] at hrun

theorem Run.of_returns {Call α : Type} {Reply : Call → Type}
    {exec : σ → Program.Exchange Reply → σ → Prop} {starts : Program Reply α → Prop}
    {es : List (Program.Exchange Reply)} {i : ℕ} {p : Program Reply α} {a : α} {s s' : σ}
    (h : Program.Returns exec p s es a s') {threads : ℕ → Option (Program Reply α)}
    (hfree : threads i = none) (hstart : starts p) :
    Run Program.Next exec starts ⟨threads, s⟩ (.start i :: es.map (.call i))
      ⟨Function.update threads i (some (.pure a)), s'⟩ :=
  .of_start h hfree hstart

/-! ### Schedules -/

section Play

variable {Call α : Type} {Reply : Call → Type}

/-- A process starts, or its next call is answered by a function. -/
inductive Move (Reply : Call → Type) (α σ : Type)
  | start (i : ℕ) (p : Program Reply α)
  | call (i : ℕ) (answer : σ → (c : Call) → Reply c × σ)

namespace Move

/-- The process. -/
def thread : Move Reply α σ → ℕ
  | .start i _ | .call i _ => i

/-- The process may start, and the answers are those of the calls. -/
def Allowed (exec : σ → Program.Exchange Reply → σ → Prop) (starts : Program Reply α → Prop) :
    Move Reply α σ → Prop
  | .start _ p => starts p
  | .call _ answer => ∀ s c, exec s ⟨c, (answer s c).1⟩ (answer s c).2

end Move

/-- What a move does; none when the process has started before, or has nothing to call. -/
def move (pool : Pool (Program Reply α) σ) :
    Move Reply α σ → Option (Label (Program.Exchange Reply) × Pool (Program Reply α) σ)
  | .start i p => match pool.threads i with
    | none => some (.start i, ⟨Function.update pool.threads i (some p), pool.state⟩)
    | some _ => none
  | .call i answer => match pool.threads i with
    | some (.call c k) => some (.call i ⟨c, (answer pool.state c).1⟩,
        ⟨Function.update pool.threads i (some (k (answer pool.state c).1)), (answer pool.state c).2⟩)
    | _ => none

/-- The moves one after another, as long as each of them passes the check. -/
def play (ok : List (Label (Program.Exchange Reply)) → σ → Label (Program.Exchange Reply) → Bool)
    (ls : List (Label (Program.Exchange Reply))) (pool : Pool (Program Reply α) σ) :
    List (Move Reply α σ) →
      Option (List (Label (Program.Exchange Reply)) × Pool (Program Reply α) σ)
  | [] => some (ls, pool)
  | m :: ms => match pool.move m with
    | none => none
    | some (l, pool') => if ok ls pool.state l then play ok (ls ++ [l]) pool' ms else none

variable {exec : σ → Program.Exchange Reply → σ → Prop} {starts : Program Reply α → Prop}
  {ok : List (Label (Program.Exchange Reply)) → σ → Label (Program.Exchange Reply) → Bool}
  {ls ls' : List (Label (Program.Exchange Reply))} {pool pool' : Pool (Program Reply α) σ}
  {ms : List (Move Reply α σ)}

theorem move_cases {m : Move Reply α σ} {l : Label (Program.Exchange Reply)}
    (h : pool.move m = some (l, pool')) :
    (∃ i p, m = .start i p ∧ pool.threads i = none ∧ l = .start i ∧
      pool' = ⟨Function.update pool.threads i (some p), pool.state⟩) ∨
    ∃ i answer c k, m = .call i answer ∧ pool.threads i = some (.call c k) ∧
      l = .call i ⟨c, (answer pool.state c).1⟩ ∧
      pool' = ⟨Function.update pool.threads i (some (k (answer pool.state c).1)),
        (answer pool.state c).2⟩ := by
  cases m with
  | start i p =>
    cases hi : pool.threads i with
    | some q => simp [move, hi] at h
    | none =>
      simp only [move, hi, Option.some.injEq, Prod.mk.injEq] at h
      exact .inl ⟨i, p, rfl, hi, h.1.symm, h.2.symm⟩
  | call i answer =>
    rcases hi : pool.threads i with _ | ⟨a | ⟨c, k⟩⟩
    · simp [move, hi] at h
    · simp [move, hi] at h
    · simp only [move, hi, Option.some.injEq, Prod.mk.injEq] at h
      exact .inr ⟨i, answer, c, k, rfl, hi, h.1.symm, h.2.symm⟩

theorem Step.of_move {m : Move Reply α σ} (hm : m.Allowed exec starts)
    {l : Label (Program.Exchange Reply)} (h : pool.move m = some (l, pool')) :
    Step Program.Next exec starts pool l pool' := by
  obtain ⟨i, p, rfl, hi, rfl, rfl⟩ | ⟨i, answer, c, k, rfl, hi, rfl, rfl⟩ := move_cases h
  · exact .start pool.state hi hm
  · exact .call hi (.call c k _) (hm pool.state c)

theorem play_cons {m : Move Reply α σ} (h : play ok ls pool (m :: ms) = some (ls', pool')) :
    ∃ l pool₁, pool.move m = some (l, pool₁) ∧ ok ls pool.state l = true ∧
      play ok (ls ++ [l]) pool₁ ms = some (ls', pool') := by
  rw [play] at h
  cases hmove : pool.move m with
  | none => simp [hmove] at h
  | some next =>
    rw [hmove] at h
    dsimp only at h
    split_ifs at h with hok
    exact ⟨next.1, next.2, rfl, hok, h⟩

/-- **A schedule that is played is a run**, of which every step passes the check. -/
theorem run_of_play (hms : ∀ m ∈ ms, m.Allowed exec starts)
    (h : play ok ls pool ms = some (ls', pool')) : ∃ ls₁, Trace.Run (fun s l s' =>
      Step Program.Next exec starts s.2 l s'.2 ∧ s'.1 = s.1 ++ [l] ∧ ok s.1 s.2.state l = true)
      (ls, pool) ls₁ (ls', pool') := by
  induction ms generalizing ls pool with
  | nil =>
    obtain ⟨rfl, rfl⟩ := Prod.mk.inj (Option.some.inj h)
    exact ⟨[], .nil _⟩
  | cons m ms ih =>
    obtain ⟨hm, hms⟩ := List.forall_mem_cons.1 hms
    obtain ⟨l, pool₁, hmove, hok, hrest⟩ := play_cons h
    obtain ⟨ls₁, run⟩ := ih hms hrest
    exact ⟨l :: ls₁, .cons ⟨.of_move hm hmove, rfl, hok⟩ run⟩

theorem threads_move {m : Move Reply α σ} {l : Label (Program.Exchange Reply)}
    (h : pool.move m = some (l, pool')) {i : ℕ} (hi : i ≠ m.thread) :
    pool'.threads i = pool.threads i := by
  obtain ⟨j, p, rfl, -, -, rfl⟩ | ⟨j, answer, c, k, rfl, -, -, rfl⟩ := move_cases h
  · exact Function.update_of_ne hi _ _
  · exact Function.update_of_ne hi _ _

theorem threads_play (h : play ok ls pool ms = some (ls', pool')) {i : ℕ}
    (hi : ∀ m ∈ ms, i ≠ m.thread) : pool'.threads i = pool.threads i := by
  induction ms generalizing ls pool with
  | nil =>
    obtain ⟨-, rfl⟩ := Prod.mk.inj (Option.some.inj h)
    rfl
  | cons m ms ih =>
    obtain ⟨hm, hms⟩ := List.forall_mem_cons.1 hi
    obtain ⟨l, pool₁, hmove, -, hrest⟩ := play_cons h
    rw [ih hrest hms, threads_move hmove hm]

end Play

section Simulation

variable {next' : L' → E → L' → Prop} {starts' : L' → Prop} {abs : L' → L}

/-- The pool with the process of every stage. -/
def map (abs : L' → L) (pool : Pool L' σ) : Pool L σ :=
  ⟨fun i => (pool.threads i).map abs, pool.state⟩

theorem map_update (abs : L' → L) (threads : ℕ → Option L') (s : σ) (i : ℕ) (p : L') :
    map abs ⟨Function.update threads i (some p), s⟩ =
      ⟨Function.update (fun j => (threads j).map abs) i (some (abs p)), s⟩ := by
  unfold map
  congr 1
  funext j
  dsimp only
  by_cases hj : j = i
  · rw [hj, Function.update_self, Function.update_self, Option.map_some]
  · rw [Function.update_of_ne hj, Function.update_of_ne hj]

/-- A step of the processes of named stages is a step of the stages. -/
theorem Step.simulate (hstart : ∀ p, starts p → ∃ q, p = abs q ∧ starts' q)
    (hnext : ∀ q e p', next (abs q) e p' → ∃ q', p' = abs q' ∧ next' q e q') {pool : Pool L' σ}
    {l : Label E} {pool₁ : Pool L σ} (step : Step next exec starts (pool.map abs) l pool₁) :
    ∃ pool' : Pool L' σ, pool₁ = pool'.map abs ∧ Step next' exec starts' pool l pool' := by
  obtain ⟨threads, s⟩ := pool
  unfold map at step
  dsimp only at step
  cases step with
  | @start _ _ i p hfree hs =>
    obtain ⟨q, rfl, hq⟩ := hstart p hs
    refine ⟨⟨Function.update threads i (some q), s⟩, (map_update ..).symm, .start s ?_ hq⟩
    exact Option.map_eq_none_iff.1 hfree
  | @call _ _ s' i p p' e hthread hn hexec =>
    obtain ⟨q, hq, rfl⟩ := Option.map_eq_some_iff.1 hthread
    obtain ⟨q', rfl, hn'⟩ := hnext q e p' hn
    exact ⟨⟨Function.update threads i (some q'), s'⟩, (map_update ..).symm, .call hq hn' hexec⟩

/-- **Processes whose programs are those of named stages run as the stages do.** -/
theorem Run.simulate (hstart : ∀ p, starts p → ∃ q, p = abs q ∧ starts' q)
    (hnext : ∀ q e p', next (abs q) e p' → ∃ q', p' = abs q' ∧ next' q e q') {pool : Pool L' σ}
    {ls : List (Label E)} {pool₁ : Pool L σ} (run : Run next exec starts (pool.map abs) ls pool₁) :
    ∃ pool' : Pool L' σ, pool₁ = pool'.map abs ∧ Run next' exec starts' pool ls pool' := by
  generalize hpool : pool.map abs = pool₀ at run
  induction run generalizing pool with
  | nil => exact ⟨pool, hpool.symm, .nil _⟩
  | cons step _ ih =>
    subst hpool
    obtain ⟨pool', rfl, step'⟩ := step.simulate hstart hnext
    obtain ⟨pool'', rfl, run'⟩ := ih rfl
    exact ⟨pool'', rfl, .cons step' run'⟩

end Simulation

end Pool
