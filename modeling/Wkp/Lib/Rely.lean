import Wkp.Lib.Program

/-!
# A program among others

What a program ends in while others change the state that they share: between two of its calls the
others do what it relies on.

* `Program.Ends` : a program runs to its end, whatever calls it makes; `Program.ends_bind`.
* `Script` : a program that can fail; `Script.ends_bind`, `Script.Sticks.bind`.
* `Program.Relying` : a call, after the others have done something.
* `Program.steps` : the run of a program whose calls are answered by a function.
* `Pool.Run.relying` : **a process of a pool runs as its program does among others.**
-/

namespace Program

variable {Call : Type} {Reply : Call → Type} {α β σ : Type}

section Ends

variable {exec : σ → Exchange Reply → σ → Prop} {s s' : σ}

variable (exec) in
/-- The program runs to its end. -/
def Ends (p : Program Reply α) (s : σ) (a : α) (s' : σ) : Prop := ∃ es, Returns exec p s es a s'

@[simp] theorem ends_pure {a b : α} : Ends exec (.pure a) s b s' ↔ a = b ∧ s = s' := by
  simp [Ends, returns_pure]

@[simp] theorem ends_call {c : Call} {k : Reply c → Program Reply α} {a : α} :
    Ends exec (.call c k) s a s' ↔ ∃ r s₁, exec s ⟨c, r⟩ s₁ ∧ Ends exec (k r) s₁ a s' := by
  constructor
  · rintro ⟨es, h⟩
    obtain ⟨r, s₁, es', -, hexec, h⟩ := returns_call.1 h
    exact ⟨r, s₁, hexec, es', h⟩
  · rintro ⟨r, s₁, hexec, h⟩
    exact exists_returns_call hexec h

theorem ends_perform {c : Call} {r : Reply c} : Ends exec (perform c) s r s' ↔ exec s ⟨c, r⟩ s' := by
  simp [perform]

theorem ends_bind {p : Program Reply α} {f : α → Program Reply β} {b : β} :
    Ends exec (p >>= f) s b s' ↔ ∃ a s₁, Ends exec p s a s₁ ∧ Ends exec (f a) s₁ b s' := by
  constructor
  · rintro ⟨es, h⟩
    obtain ⟨es₁, es₂, a, s₁, -, h₁, h₂⟩ := returns_bind.1 h
    exact ⟨a, s₁, ⟨es₁, h₁⟩, es₂, h₂⟩
  · rintro ⟨a, s₁, ⟨es₁, h₁⟩, es₂, h₂⟩
    exact ⟨es₁ ++ es₂, returns_bind.2 ⟨es₁, es₂, a, s₁, rfl, h₁, h₂⟩⟩

theorem Ends.map {τ : Type} {exec' : τ → Exchange Reply → τ → Prop} {f : σ → τ}
    (h : ∀ s e s', exec s e s' → exec' (f s) e (f s')) {p : Program Reply α} {a : α}
    (hp : Ends exec p s a s') : Ends exec' p (f s) a (f s') := by
  induction p generalizing s with
  | pure b =>
    obtain ⟨rfl, rfl⟩ := ends_pure.1 hp
    exact ends_pure.2 ⟨rfl, rfl⟩
  | call c k ih =>
    obtain ⟨r, s₁, hexec, hp⟩ := ends_call.1 hp
    exact ends_call.2 ⟨r, f s₁, h _ _ _ hexec, ih r hp⟩

end Ends

/-! ### Programs whose calls are answered by a function -/

section Steps

variable {answer : σ → (c : Call) → Reply c × σ} {right : σ → Call → Bool}

variable (answer right) in
/-- The run of a program for a number of calls, as long as the answers are right. -/
def steps : ℕ → Program Reply α → σ → Option (Program Reply α × σ)
  | 0, p, s => some (p, s)
  | _ + 1, .pure a, s => some (.pure a, s)
  | n + 1, .call c k, s =>
    if right s c then
      let (r, s₁) := answer s c
      steps n (k r) s₁
    else none

theorem run_steps {exec : σ → Exchange Reply → σ → Prop}
    (h : ∀ s c, right s c = true → exec s ⟨c, (answer s c).1⟩ (answer s c).2) {n : ℕ}
    {p p' : Program Reply α} {s s' : σ} (hsteps : steps answer right n p s = some (p', s')) :
    ∃ es, Trace.Run (Step exec) (p, s) es (p', s') := by
  induction n generalizing p s with
  | zero =>
    obtain ⟨rfl, rfl⟩ := Prod.mk.inj (Option.some.inj hsteps)
    exact ⟨[], .nil _⟩
  | succ n ih =>
    cases p with
    | pure a =>
      obtain ⟨rfl, rfl⟩ := Prod.mk.inj (Option.some.inj hsteps)
      exact ⟨[], .nil _⟩
    | call c k =>
      rw [steps] at hsteps
      split_ifs at hsteps with hright
      obtain ⟨es, hrun⟩ := ih hsteps
      exact ⟨_ :: es, .cons ⟨.call c k _, h s c hright⟩ hrun⟩

/-- The next call of the program. -/
def call? : Program Reply α → Option Call
  | .pure _ => none
  | .call c _ => some c

theorem call?_eq_some {p : Program Reply α} {c : Call} :
    p.call? = some c ↔ ∃ k, p = .call c k := by
  cases p with
  | pure a => simp [call?]
  | call d k =>
    constructor
    · rintro ⟨⟩
      exact ⟨k, rfl⟩
    · rintro ⟨k', h⟩
      cases h
      rfl

end Steps

/-- A call, after the others have done something. -/
def Relying (R : σ → σ → Prop) (exec : σ → Exchange Reply → σ → Prop) (s : σ) (e : Exchange Reply)
    (s' : σ) : Prop := ∃ s₁, R s s₁ ∧ exec s₁ e s'

/-- The programs of several owners: an owner makes the next call of its program. -/
def OwnNext {δ : Type} (l : δ × Program Reply α) (e : δ × Exchange Reply) (l' : δ × Program Reply α) :
    Prop := e.1 = l.1 ∧ l'.1 = l.1 ∧ Next l.2 e.2 l'.2

end Program

/-! ### Programs that can fail -/

/-- A program that can fail. -/
abbrev Script {Call : Type} (Reply : Call → Type) (ε α : Type) := ExceptT ε (Program Reply) α

namespace Script

open Program

variable {Call : Type} {Reply : Call → Type} {ε α β σ : Type}
variable {exec : σ → Exchange Reply → σ → Prop} {s s' : σ}

@[simp] theorem ends_pure {a b : α} :
    Ends exec (pure a : Script Reply ε α).run s (.ok b) s' ↔ a = b ∧ s = s' := by
  change Ends exec (.pure (Except.ok a : Except ε α)) s (.ok b) s' ↔ _
  simp

theorem ends_bind {m : Script Reply ε α} {f : α → Script Reply ε β} {b : β} :
    Ends exec (m >>= f).run s (.ok b) s' ↔
      ∃ a s₁, Ends exec m.run s (.ok a) s₁ ∧ Ends exec (f a).run s₁ (.ok b) s' := by
  rw [ExceptT.run_bind, Program.ends_bind]
  constructor
  · rintro ⟨e | a, s₁, h₁, h₂⟩
    · have h₂ : Ends exec (.pure (Except.error e : Except ε β)) s₁ (.ok b) s' := h₂
      rw [Program.ends_pure] at h₂
      cases h₂.1
    · exact ⟨a, s₁, h₁, h₂⟩
  · rintro ⟨a, s₁, h₁, h₂⟩
    exact ⟨.ok a, s₁, h₁, h₂⟩

section Protocol

variable {G : Type} {allowed : G → Call → Prop} {next : G → Exchange Reply → G → Prop}

variable (allowed next) in
/-- The script keeps to a protocol, and when it succeeds, it returns what is promised. -/
abbrev Sticks (post : G → α → Prop) (g : G) (m : Script Reply ε α) : Prop :=
  Follows allowed next (fun g r => ∀ a, r = .ok a → post g a) g m.run

theorem Sticks.pure {post : G → α → Prop} {g : G} {a : α} (h : post g a) :
    Sticks allowed next post g (pure a : Script Reply ε α) := by
  rintro b ⟨⟩
  exact h

theorem Sticks.bind {mid : G → α → Prop} {post : G → β → Prop} {g : G} {m : Script Reply ε α}
    {f : α → Script Reply ε β} (hm : Sticks allowed next mid g m)
    (hf : ∀ g a, mid g a → Sticks allowed next post g (f a)) :
    Sticks allowed next post g (m >>= f) := by
  unfold Sticks
  rw [ExceptT.run_bind]
  refine Follows.bind hm fun g r hr => ?_
  cases r with
  | ok a => exact hf g a (hr a rfl)
  | error e => exact nofun

/-- One script after another, where the second keeps to the protocol from where the first ends. -/
theorem Sticks.chain {post : G → β → Prop} {g : G} {m : Script Reply ε α} {f : α → Script Reply ε β}
    (h : Follows allowed next (fun g r => ∀ a, r = .ok a → Sticks allowed next post g (f a)) g m.run) :
    Sticks allowed next post g (m >>= f) :=
  .bind h fun _ _ hf => hf

end Protocol

end Script

/-! ### A process among others -/

namespace Pool

open Program

variable {Call : Type} {Reply : Call → Type} {α δ σ : Type}
variable {exec : σ → δ × Exchange Reply → σ → Prop} {starts : δ × Program Reply α → Prop}

theorem Run.of_owner {d : δ} {es : List (Exchange Reply)} {t : ℕ} {p p' : Program Reply α × σ}
    (run : Trace.Run (Program.Step fun s e => exec s (d, e)) p es p')
    {threads : ℕ → Option (δ × Program Reply α)} (ht : threads t = some (d, p.1)) :
    Run OwnNext exec starts ⟨threads, p.2⟩ (es.map fun e => .call t (d, e))
      ⟨Function.update threads t (some (d, p'.1)), p'.2⟩ := by
  induction run generalizing threads with
  | nil p =>
    rw [← ht, Function.update_eq_self]
    exact .nil _
  | @cons p p₁ p₂ e es hstep _ ih =>
    have hcall : Pool.Step OwnNext exec starts ⟨threads, p.2⟩ (.call t (d, e))
        ⟨Function.update threads t (some (d, p₁.1)), p₁.2⟩ :=
      .call ht ⟨rfl, rfl, hstep.1⟩ hstep.2
    refine .cons hcall ?_
    have hrun := ih (Function.update_self t (some (d, p₁.1)) threads)
    rwa [Function.update_idem] at hrun

/-- **A process of a pool runs as its program does among others.** -/
theorem Run.relying {R : σ → σ → Prop} (hrefl : ∀ s, R s s)
    (htrans : ∀ s₁ s₂ s₃, R s₁ s₂ → R s₂ s₃ → R s₁ s₃)
    {pool pool' : Pool (δ × Program Reply α) σ} {ls : List (Label (δ × Exchange Reply))}
    (run : Run OwnNext exec starts pool ls pool') {t : ℕ} {d d' : δ} {p p' : Program Reply α}
    (hp : pool.threads t = some (d, p)) (hp' : pool'.threads t = some (d', p'))
    (hothers : ∀ u e, .call u e ∈ ls → u ≠ t → ∀ s s', exec s e s' → R s s') :
    d' = d ∧ ∃ es s₁, Trace.Run (Program.Step (Relying R fun s e => exec s (d, e)))
      (p, pool.state) es (p', s₁) ∧ R s₁ pool'.state := by
  -- the state that the process saw last is kept beside that of the pool
  suffices h : ∀ s, R s pool.state → d' = d ∧ ∃ es s₁,
      Trace.Run (Program.Step (Relying R fun s e => exec s (d, e))) (p, s) es (p', s₁) ∧
        R s₁ pool'.state from h _ (hrefl _)
  induction run generalizing p with
  | nil pool =>
    intro s hs
    rw [hp] at hp'
    cases hp'
    exact ⟨rfl, [], s, .nil _, hs⟩
  | @cons pool pool₁ pool₂ l ls hstep run ih =>
    intro s hs
    replace ih := fun {p} hp => @ih p hp hp' fun u e hmem =>
      hothers u e (List.mem_cons_of_mem _ hmem)
    cases hstep with
    | @start threads st i q hfree hstart =>
      have hne : t ≠ i := fun h => by
        subst h
        exact Option.some_ne_none _ (hp.symm.trans hfree)
      exact ih (by simpa [hne] using hp) s hs
    | @call threads st st' i q q' e hthread hnext hexec =>
      by_cases hi : i = t
      · subst hi
        obtain rfl := Option.some.inj (hp.symm.trans hthread)
        obtain ⟨d₁, e⟩ := e
        obtain ⟨d₂, q'⟩ := q'
        obtain ⟨hd₁, hd₂, hnext⟩ := hnext
        dsimp only at hd₁ hd₂
        subst hd₁ hd₂
        obtain ⟨hd, es, s₁, hrun, hR⟩ := ih (Function.update_self ..) st' (hrefl _)
        exact ⟨hd, e :: es, s₁, .cons ⟨hnext, st, hs, hexec⟩ hrun, hR⟩
      · refine ih (by simpa [Ne.symm hi] using hp) s (htrans _ _ _ hs ?_)
        exact hothers i e List.mem_cons_self hi _ _ hexec

end Pool
