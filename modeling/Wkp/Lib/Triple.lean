import Wkp.Lib.Rely

/-!
# What a script ensures

Hoare triples for programs that make calls and can fail.  What a script ensures is said of its result,
a value or an error, and of the state that it ends in.

* `Script.Triple` : from any state with the precondition, however the script ends, the postcondition
  holds.
* `Script.Triple.bind` : one script after another, where an error ends both.
* `Script.Triple.perform` : a call.
-/

namespace Script

open Program

variable {Call : Type} {Reply : Call → Type} {ε α β σ : Type}
variable {exec : σ → Exchange Reply → σ → Prop}

variable (exec) in
/-- However the script ends from a state with the precondition, the postcondition holds. -/
def Triple (P : σ → Prop) (m : Script Reply ε α) (Q : Except ε α → σ → Prop) : Prop :=
  ∀ s, P s → ∀ r s', Ends exec m.run s r s' → Q r s'

namespace Triple

variable {P P' : σ → Prop} {Q Q' : Except ε α → σ → Prop} {m : Script Reply ε α}

theorem mono (h : Triple exec P m Q) (hP : ∀ s, P' s → P s) (hQ : ∀ r s, Q r s → Q' r s) :
    Triple exec P' m Q' :=
  fun s hs r s' hends => hQ r s' (h s (hP s hs) r s' hends)

theorem of_imp {φ : Prop} (h : φ → Triple exec P m Q) : Triple exec (fun s => P s ∧ φ) m Q :=
  fun s hs => h hs.2 s hs.1

theorem pure {a : α} (h : ∀ s, P s → Q (.ok a) s) :
    Triple exec P (pure a : Script Reply ε α) Q := by
  intro s hs r s' hends
  obtain ⟨rfl, rfl⟩ := Program.ends_pure.1 hends
  exact h s hs

theorem value {r : Except ε α} (h : ∀ s, P s → Q r s) :
    Triple exec P (ExceptT.mk (Program.pure r) : Script Reply ε α) Q := by
  intro s hs r' s' hends
  obtain ⟨rfl, rfl⟩ := Program.ends_pure.1 hends
  exact h s hs

theorem throw {e : ε} (h : ∀ s, P s → Q (.error e) s) :
    Triple exec P (throw e : Script Reply ε α) Q :=
  value h

/-- One script after another: an error of the first ends both. -/
theorem bind {R : Except ε α → σ → Prop} {Q : Except ε β → σ → Prop} {f : α → Script Reply ε β}
    (hm : Triple exec P m R) (hf : ∀ a, Triple exec (R (.ok a)) (f a) Q)
    (herror : ∀ e s, R (.error e) s → Q (.error e) s) : Triple exec P (m >>= f) Q := by
  intro s hs r s' hends
  rw [ExceptT.run_bind, Program.ends_bind] at hends
  obtain ⟨e | a, s₁, h₁, h₂⟩ := hends
  · have h₂ : Ends exec (.pure (Except.error e : Except ε β)) s₁ r s' := h₂
    obtain ⟨rfl, rfl⟩ := Program.ends_pure.1 h₂
    exact herror e s₁ (hm s hs _ _ h₁)
  · exact hf a s₁ (hm s hs _ _ h₁) r s' h₂

/-- What every call keeps, every script keeps. -/
theorem of_calls {I : σ → Prop} (h : ∀ s e s', I s → exec s e s' → I s') (m : Script Reply ε α) :
    Triple exec I m fun _ s => I s := by
  intro s hs r s' hends
  change Program Reply (Except ε α) at m
  change Ends exec m s r s' at hends
  induction m generalizing s with
  | pure a =>
    obtain ⟨-, rfl⟩ := Program.ends_pure.1 hends
    exact hs
  | call c k ih =>
    obtain ⟨a, s₁, hexec, hends⟩ := Program.ends_call.1 hends
    exact ih a s₁ (h s _ s₁ hs hexec) hends

/-- A call, and what becomes of its reply. -/
theorem perform {c : Call} {k : Reply c → Except ε α}
    (h : ∀ s r s', P s → exec s ⟨c, r⟩ s' → Q (k r) s') :
    Triple exec P (ExceptT.mk (Program.perform c >>= fun r => Program.pure (k r)) :
      Script Reply ε α) Q := by
  intro s hs r s' hends
  obtain ⟨a, s₁, h₁, h₂⟩ := Program.ends_bind.1 hends
  obtain ⟨rfl, rfl⟩ := Program.ends_pure.1 h₂
  exact h s a s₁ hs (Program.ends_perform.1 h₁)

end Triple

end Script
