import Wkp.Lib.Program

/-!
# Processes that keep to a protocol

The processes of a pool, each of which keeps to a protocol of its own.  What is known of the pool is
said of the states of the protocols, the calls so far and the shared state.

* `Pool.Keeps` : every process is where its protocol is.
* `Pool.Rule` : what a start and an allowed call keep.
* `Pool.Run.keeps` : **what they keep holds at the end of every run.**
-/

namespace Pool

open Program

variable {Call : Type} {Reply : Call → Type} {α σ G : Type}
variable {exec : σ → Exchange Reply → σ → Prop} {starts : Program Reply α → Prop}
variable {allowed : G → Call → Prop} {next : G → Exchange Reply → G → Prop} {post : G → α → Prop}

variable (allowed next post) in
/-- Every process is where its protocol is. -/
def Keeps (ghosts : ℕ → Option G) (threads : ℕ → Option (Program Reply α)) : Prop :=
  ∀ i, (ghosts i = none ∧ threads i = none) ∨
    ∃ g p, ghosts i = some g ∧ threads i = some p ∧ Follows allowed next post g p

section Keeps

variable {ghosts : ℕ → Option G} {threads : ℕ → Option (Program Reply α)} {i : ℕ}

theorem Keeps.free (h : Keeps allowed next post ghosts threads) (hi : threads i = none) :
    ghosts i = none := by
  rcases h i with ⟨hg, -⟩ | ⟨g, p, -, hp, -⟩
  · exact hg
  · rw [hi] at hp
    cases hp

theorem Keeps.follows (h : Keeps allowed next post ghosts threads) {p : Program Reply α}
    (hi : threads i = some p) : ∃ g, ghosts i = some g ∧ Follows allowed next post g p := by
  rcases h i with ⟨-, hp⟩ | ⟨g, q, hg, hq, hfollows⟩
  · rw [hi] at hp
    cases hp
  · rw [hi] at hq
    obtain rfl := Option.some.inj hq
    exact ⟨g, hg, hfollows⟩

theorem Keeps.update (h : Keeps allowed next post ghosts threads) {g : G} {p : Program Reply α}
    (hp : Follows allowed next post g p) :
    Keeps allowed next post (Function.update ghosts i (some g))
      (Function.update threads i (some p)) := by
  intro j
  by_cases hj : j = i
  · rw [hj, Function.update_self, Function.update_self]
    exact .inr ⟨g, p, rfl, rfl, hp⟩
  · rw [Function.update_of_ne hj, Function.update_of_ne hj]
    exact h j

theorem Keeps.done (h : Keeps allowed next post ghosts threads) {a : α}
    (hi : threads i = some (.pure a)) : ∃ g, ghosts i = some g ∧ post g a :=
  h.follows hi

end Keeps

variable (exec starts allowed next post) in
/-- What a start and an allowed call keep, of the calls so far, of the states of the protocols and of
the shared state. -/
structure Rule (I : List (Label (Exchange Reply)) → (ℕ → Option G) → σ → Prop) : Prop where
  /-- A start. -/
  start : ∀ {ls ghosts s i p}, I ls ghosts s → ghosts i = none → starts p →
    ∃ g, Follows allowed next post g p ∧
      I (ls ++ [.start i]) (Function.update ghosts i (some g)) s
  /-- A call. -/
  call : ∀ {ls ghosts s i g e s'}, I ls ghosts s → ghosts i = some g → allowed g e.1 →
    exec s e s' → ∃ g', next g e g' ∧
      I (ls ++ [.call i e]) (Function.update ghosts i (some g')) s'

/-- **What starts and allowed calls keep holds at the end of every run.** -/
theorem Run.keeps {I : List (Label (Exchange Reply)) → (ℕ → Option G) → σ → Prop}
    (rule : Rule exec starts allowed next post I) {pool pool' : Pool (Program Reply α) σ}
    {ls : List (Label (Exchange Reply))} {ghosts : ℕ → Option G}
    (h : Keeps allowed next post ghosts pool.threads) (hI : I [] ghosts pool.state)
    (run : Run Next exec starts pool ls pool') :
    ∃ ghosts', Keeps allowed next post ghosts' pool'.threads ∧ I ls ghosts' pool'.state := by
  refine Trace.Run.history (I := fun ls pool' => ∃ ghosts',
    Keeps allowed next post ghosts' pool'.threads ∧ I ls ghosts' pool'.state) ⟨ghosts, h, hI⟩ ?_ run
  rintro ls p l p' - ⟨ghosts, hp, hI⟩ hstep
  cases hstep with
  | start s hfree hstart =>
    obtain ⟨g, hg, hI'⟩ := rule.start hI (hp.free hfree) hstart
    exact ⟨_, hp.update hg, hI'⟩
  | call hthread hnext hexec =>
    obtain ⟨g, hg, hfollows⟩ := hp.follows hthread
    obtain ⟨g', hg', hI'⟩ := rule.call hI hg (hfollows.allowed_of_next hnext) hexec
    exact ⟨_, hp.update (hfollows.step hnext hg').2, hI'⟩

theorem keeps_nil :
    Keeps allowed next post (fun _ => none) fun _ => (none : Option (Program Reply α)) :=
  fun _ => .inl ⟨rfl, rfl⟩

end Pool
