import Mathlib.Data.List.Basic

/-!
# Programs that can fail

A program that changes a state and can fail.  What it did before it failed stays done.

* `Effect.exec` : the outcome and the state afterwards.
* `Effect.attempt`, `Effect.ofExcept`, `Effect.mapError` : steps that may fail.
* `Effect.exec_bind` : one program after another; `Effect.exec_mapM_invariant` : a loop.
* `Effect.Keeps` : what holds before holds afterwards, whether or not the program failed;
  `Effect.Keeps.mapM` is the rule for loops.
-/

variable {σ τ ε α β : Type}

/-- A program with state `σ` and errors `ε`. -/
abbrev Effect (σ ε α : Type) := ExceptT ε (StateM σ) α

theorem Except.bind_eq_ok {x : Except ε α} {f : α → Except ε β} {b : β} :
    x >>= f = .ok b ↔ ∃ a, x = .ok a ∧ f a = .ok b := by
  cases x with
  | error e => simp [bind, Except.bind]
  | ok a => simp [bind, Except.bind]

namespace Effect

/-- The outcome and the state afterwards. -/
def exec (m : Effect σ ε α) (s : σ) : Except ε α × σ := (m.run).run s

@[simp] theorem exec_pure (a : α) (s : σ) : exec (pure a : Effect σ ε α) s = (.ok a, s) := rfl

@[simp] theorem exec_throw (e : ε) (s : σ) :
    exec (throw e : Effect σ ε α) s = (.error e, s) := rfl

@[simp] theorem exec_get (s : σ) : exec (get : Effect σ ε σ) s = (.ok s, s) := rfl

@[simp] theorem exec_set (s s' : σ) : exec (set s' : Effect σ ε PUnit) s = (.ok ⟨⟩, s') := rfl

@[simp] theorem exec_modify (f : σ → σ) (s : σ) :
    exec (modify f : Effect σ ε PUnit) s = (.ok ⟨⟩, f s) := rfl

/-- Fail with the given error, if there is one. -/
def attempt (fault : Option ε) : Effect σ ε Unit :=
  match fault with
  | none => pure ()
  | some e => throw e

/-- The outcome of a pure computation. -/
def ofExcept : Except ε α → Effect σ ε α
  | .ok a => pure a
  | .error e => throw e

/-- Change the error of a program, if it fails. -/
def mapError (f : ε → ε) (m : Effect σ ε α) : Effect σ ε α :=
  ExceptT.mk fun s => ((exec m s).1.mapError f, (exec m s).2)

/-- The outcome of a program, whether or not it fails. -/
def outcome (m : Effect σ ε α) : Effect σ ε (Except ε α) :=
  ExceptT.mk fun s => (.ok (exec m s).1, (exec m s).2)

theorem exec_outcome (m : Effect σ ε α) (s : σ) :
    exec (outcome m) s = (.ok (exec m s).1, (exec m s).2) := rfl

/-- A program on a part of the state: `get` reads the part, `put` writes it back. -/
def focus (get : τ → σ) (put : τ → σ → τ) (m : Effect σ ε α) : Effect τ ε α :=
  ExceptT.mk fun t => ((exec m (get t)).1, put t (exec m (get t)).2)

theorem exec_focus (get : τ → σ) (put : τ → σ → τ) (m : Effect σ ε α) (t : τ) :
    exec (focus get put m) t = ((exec m (get t)).1, put t (exec m (get t)).2) := rfl

theorem exec_mapError (f : ε → ε) (m : Effect σ ε α) (s : σ) :
    exec (mapError f m) s = ((exec m s).1.mapError f, (exec m s).2) := rfl

theorem exists_exec_eq_ok {m : Effect σ ε α} {s : σ} (h : (exec m s).1.isOk = true) :
    ∃ a, exec m s = (.ok a, (exec m s).2) := by
  rcases hx : exec m s with ⟨e | a, s'⟩
  · rw [hx] at h
    cases h
  · exact ⟨a, rfl⟩

theorem exists_exec_eq_error {m : Effect σ ε α} {s : σ} (h : (exec m s).1.isOk = false) :
    ∃ e, exec m s = (.error e, (exec m s).2) := by
  rcases hx : exec m s with ⟨e | a, s'⟩
  · exact ⟨e, rfl⟩
  · rw [hx] at h
    cases h

theorem exec_mapError_eq_ok {f : ε → ε} {m : Effect σ ε α} {s s' : σ} {a : α} :
    exec (mapError f m) s = (.ok a, s') ↔ exec m s = (.ok a, s') := by
  rw [exec_mapError]
  rcases exec m s with ⟨e | b, s₁⟩ <;> simp [Except.mapError]

theorem exec_mapError_eq_error {f : ε → ε} {m : Effect σ ε α} {s s' : σ} {e : ε}
    (h : exec (mapError f m) s = (.error e, s')) : ∃ e', exec m s = (.error e', s') := by
  rw [exec_mapError] at h
  rcases hx : exec m s with ⟨e' | b, s₁⟩
  · rw [hx] at h
    obtain rfl := (Prod.mk.inj h).2
    exact ⟨e', rfl⟩
  · rw [hx] at h
    cases h

theorem exec_bind (m : Effect σ ε α) (k : α → Effect σ ε β) (s : σ) :
    exec (m >>= k) s = match exec m s with
      | (.ok a, s') => exec (k a) s'
      | (.error e, s') => (.error e, s') := by
  simp only [exec, ExceptT.run_bind, StateT.run_bind]
  rcases m.run.run s with ⟨a | a, s'⟩ <;> rfl

theorem exec_bind_eq_ok {m : Effect σ ε α} {k : α → Effect σ ε β} {s s' : σ} {b : β} :
    exec (m >>= k) s = (.ok b, s') ↔
      ∃ a s₁, exec m s = (.ok a, s₁) ∧ exec (k a) s₁ = (.ok b, s') := by
  rw [exec_bind]
  rcases exec m s with ⟨e | a, s₁⟩ <;> simp

/-- A program and then another fail when the first does, or the second after it. -/
theorem exec_bind_eq_error {m : Effect σ ε α} {k : α → Effect σ ε β} {s s' : σ} {e : ε} :
    exec (m >>= k) s = (.error e, s') ↔ exec m s = (.error e, s') ∨
      ∃ a s₁, exec m s = (.ok a, s₁) ∧ exec (k a) s₁ = (.error e, s') := by
  rw [exec_bind]
  rcases exec m s with ⟨e' | a, s₁⟩ <;> simp

@[simp] theorem exec_get_bind (k : σ → Effect σ ε β) (s : σ) :
    exec (get >>= k) s = exec (k s) s := by
  rw [exec_bind, exec_get]

theorem exec_bind_congr {m m' : Effect σ ε α} {k k' : α → Effect σ ε β} {s : σ}
    (hm : exec m s = exec m' s)
    (hk : ∀ a s₁, exec m' s = (.ok a, s₁) → exec (k a) s₁ = exec (k' a) s₁) :
    exec (m >>= k) s = exec (m' >>= k') s := by
  rw [exec_bind, exec_bind, hm]
  rcases hx : exec m' s with ⟨e | a, s₁⟩
  · rfl
  · exact hk a s₁ hx

theorem exec_outcome_bind (m : Effect σ ε α) (k : Except ε α → Effect σ ε β) (s : σ) :
    exec (outcome m >>= k) s = exec (k (exec m s).1) (exec m s).2 := by
  rw [exec_bind, exec_outcome]

/-- What follows a step that may fail succeeds when the step does not fail. -/
theorem exec_attempt_bind_eq_ok {fault : Option ε} {k : Unit → Effect σ ε β} {s s' : σ} {b : β} :
    exec (attempt fault >>= k) s = (.ok b, s') ↔ fault = none ∧ exec (k ()) s = (.ok b, s') := by
  rw [exec_bind]
  cases fault with
  | none => simp [attempt]
  | some e => simp [attempt]

theorem exec_attempt_bind_eq_error {fault : Option ε} {k : Unit → Effect σ ε β} {s s' : σ} {e : ε} :
    exec (attempt fault >>= k) s = (.error e, s') ↔
      (fault = some e ∧ s = s') ∨ (fault = none ∧ exec (k ()) s = (.error e, s')) := by
  rw [exec_bind]
  cases fault with
  | none => simp [attempt]
  | some e => simp [attempt]

theorem exec_ofExcept_bind_eq_error {x : Except ε α} {k : α → Effect σ ε β} {s s' : σ} {e : ε} :
    exec (ofExcept x >>= k) s = (.error e, s') ↔
      (x = .error e ∧ s = s') ∨ ∃ a, x = .ok a ∧ exec (k a) s = (.error e, s') := by
  rw [exec_bind]
  cases x <;> simp [ofExcept]

theorem exec_ofExcept_bind_eq_ok {x : Except ε α} {k : α → Effect σ ε β} {s s' : σ} {b : β} :
    exec (ofExcept x >>= k) s = (.ok b, s') ↔ ∃ a, x = .ok a ∧ exec (k a) s = (.ok b, s') := by
  rw [exec_bind]
  cases x <;> simp [ofExcept]

/-! ### Loops -/

theorem exec_mapM_cons_eq_ok {m : α → Effect σ ε β} {a : α} {l : List α} {s s' : σ} {bs : List β} :
    exec ((a :: l).mapM m) s = (.ok bs, s') ↔ ∃ b s₁ bs', exec (m a) s = (.ok b, s₁) ∧
      exec (l.mapM m) s₁ = (.ok bs', s') ∧ b :: bs' = bs := by
  simp only [List.mapM_cons, exec_bind_eq_ok, exec_pure, Prod.mk.injEq, Except.ok.injEq]
  constructor
  · rintro ⟨b, s₁, hstep, bs', s₂, hloop, hbs, rfl⟩
    exact ⟨b, s₁, bs', hstep, hloop, hbs⟩
  · rintro ⟨b, s₁, bs', hstep, hloop, hbs⟩
    exact ⟨b, s₁, hstep, bs', s', hloop, hbs, rfl⟩

/-- **The rule for loops that succeed.**  `P done` holds when the elements of `done` are behind the
loop, and each step returns what `f` says. -/
theorem exec_mapM_invariant {P : List α → σ → Prop} {f : α → β} {m : α → Effect σ ε β} {l : List α}
    (hstep : ∀ done a rest s b s', l = done ++ a :: rest → P done s →
      exec (m a) s = (.ok b, s') → b = f a ∧ P (done ++ [a]) s')
    {s s' : σ} {bs : List β} (hs : P [] s) (h : exec (l.mapM m) s = (.ok bs, s')) :
    bs = l.map f ∧ P l s' := by
  suffices hloop : ∀ rest done s bs, l = done ++ rest → P done s →
      exec (rest.mapM m) s = (.ok bs, s') → bs = rest.map f ∧ P l s' from hloop l [] s bs rfl hs h
  intro rest
  induction rest with
  | nil =>
    intro done s bs hl hdone h
    cases h
    rw [List.append_nil] at hl
    exact ⟨rfl, hl ▸ hdone⟩
  | cons a rest ih =>
    intro done s bs hl hdone h
    obtain ⟨b, s₁, bs', hone, hrest, rfl⟩ := exec_mapM_cons_eq_ok.1 h
    obtain ⟨rfl, hnext⟩ := hstep done a rest s b s₁ hl hdone hone
    obtain ⟨rfl, hend⟩ := ih (done ++ [a]) s₁ bs' (by rw [hl, List.append_assoc]; rfl) hnext hrest
    exact ⟨rfl, hend⟩

/-! ### Invariants -/

/-- What holds before holds afterwards, whether or not the program fails. -/
def Keeps (I : σ → Prop) (m : Effect σ ε α) : Prop := ∀ s, I s → I (exec m s).2

variable {I : σ → Prop}

theorem Keeps.pure (a : α) : Keeps I (pure a : Effect σ ε α) := fun _ h => h

theorem Keeps.throw (e : ε) : Keeps I (throw e : Effect σ ε α) := fun _ h => h

theorem Keeps.get : Keeps I (get : Effect σ ε σ) := fun _ h => h

theorem Keeps.modify {f : σ → σ} (h : ∀ s, I s → I (f s)) :
    Keeps I (modify f : Effect σ ε PUnit) := h

theorem Keeps.bind {m : Effect σ ε α} {k : α → Effect σ ε β} (hm : Keeps I m)
    (hk : ∀ a, Keeps I (k a)) : Keeps I (m >>= k) := by
  intro s hs
  have hs₁ := hm s hs
  rw [exec_bind]
  rcases hx : exec m s with ⟨e | a, s₁⟩
  · rwa [hx] at hs₁
  · rw [hx] at hs₁
    exact hk a s₁ hs₁

theorem Keeps.attempt (fault : Option ε) : Keeps I (attempt fault : Effect σ ε Unit) := by
  cases fault with
  | none => exact Keeps.pure ()
  | some e => exact Keeps.throw e

theorem Keeps.forM {m : α → Effect σ ε PUnit} {l : List α} (h : ∀ a ∈ l, Keeps I (m a)) :
    Keeps I (forM l m) := by
  induction l with
  | nil => exact .pure _
  | cons a l ih =>
    rw [List.forM_cons]
    exact (h a List.mem_cons_self).bind fun _ => ih fun c hc => h c (List.mem_cons_of_mem _ hc)

theorem Keeps.mapM {m : α → Effect σ ε β} {l : List α} (h : ∀ a ∈ l, Keeps I (m a)) :
    Keeps I (l.mapM m) := by
  induction l with
  | nil => exact .pure _
  | cons a l ih =>
    rw [List.mapM_cons]
    refine (h a List.mem_cons_self).bind fun b => ?_
    exact (ih fun c hc => h c (List.mem_cons_of_mem _ hc)).bind fun bs => .pure _

/-- Two loops do the same when their bodies do, wherever the second loop can get. -/
theorem exec_mapM_congr {m m' : α → Effect σ ε β} {l : List α} (hkeeps : ∀ a ∈ l, Keeps I (m' a))
    (heq : ∀ a ∈ l, ∀ s, I s → exec (m a) s = exec (m' a) s) {s : σ} (hs : I s) :
    exec (l.mapM m) s = exec (l.mapM m') s := by
  induction l generalizing s with
  | nil => rfl
  | cons a l ih =>
    rw [List.mapM_cons, List.mapM_cons]
    refine exec_bind_congr (heq a List.mem_cons_self s hs) fun b s₁ hb => ?_
    have hs₁ : I s₁ := by
      have h := hkeeps a List.mem_cons_self s hs
      rwa [hb] at h
    refine exec_bind_congr (ih (fun c hc => hkeeps c (List.mem_cons_of_mem _ hc))
      (fun c hc => heq c (List.mem_cons_of_mem _ hc)) hs₁) fun _ _ _ => rfl

end Effect
