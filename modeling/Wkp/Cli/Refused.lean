import Wkp.Cli.Remembered
import Wkp.Core.Excerpts

/-!
# What a refusal of `wkp remember` shows

A body with a secret is refused with the excerpts of what was found, which are there to be read by
the agent that wrote it.

* `Cli.exec_refused` : the outcome of a refusal.
* `Cli.excerpts_conceal_iff` : **when the excerpts show nothing of the secrets, and so do not depend
  on them.**
* `Cli.excerpt_shows_neighbour` : a secret is shown next to another, and where it is too long.
-/

namespace Wkp

open Rust

namespace Cli

theorem exec_refused {H : Git.Host} {T : CharTables} {S : Secrets.Scanner} {nanos : Str}
    {opts : RememberOptions} {body : Str} {ignored : Git.Repo → Str → Bool}
    {generated : Except Str Str} (h : Secrets.scan S body ≠ []) (s : Git.Branches) :
    Effect.exec (runRememberWithBody H T S nanos opts body ignored generated) s =
      (.error (refusal (Secrets.scan S body)), s) := by
  have hwrite : Effect.exec (writeMemory H T S nanos opts body) s.repo =
      (.error (refusal (Secrets.scan S body)), s.repo) := by
    rw [writeMemory, if_pos h, Effect.exec_throw]
  rw [runRememberWithBody, Effect.exec_bind, Git.onRepo, Effect.exec_focus, hwrite]

/-- **When the excerpts show nothing of the secrets.**  No excerpt shows a byte of a reported match or
of the value characters that continue it, and bodies that differ only there are refused alike,
exactly when no value goes on behind its match and two matches have the same place or twenty bytes
between them. -/
theorem excerpts_conceal_iff (S : Secrets.Scanner) (body : Str) :
    (Secrets.Conceals S body ∧ ∀ body', Secrets.DifferInside S body body' →
      Secrets.scan S body ≠ [] → ∀ (H : Git.Host) (T : CharTables) (nanos : Str)
        (opts : RememberOptions) (ignored : Git.Repo → Str → Bool) (generated : Except Str Str)
        (s : Git.Branches),
        Effect.exec (runRememberWithBody H T S nanos opts body ignored generated) s =
          Effect.exec (runRememberWithBody H T S nanos opts body' ignored generated) s) ↔
      Secrets.Apart S body := by
  rw [← Secrets.conceals_iff]
  refine ⟨And.left, fun hconceals => ⟨hconceals, ?_⟩⟩
  intro body' hdiffer hfound H T nanos opts ignored generated s
  have hscan := hdiffer.scan_eq hconceals
  rw [exec_refused hfound, exec_refused (hscan ▸ hfound), hscan]

/-- Two secrets next to each other. -/
def neighbours : Str := "token: aaaaaaaaaaaaaaaa secret: bbbbbbbbbbbbbbbb".toList

/-- A secret that is longer than a match. -/
def overlong : Str := "token: ".toList ++ List.replicate 120 'a'

/-- An excerpt shows the secret behind its own, and the end of its own. -/
theorem excerpt_shows_neighbour :
    (Secrets.scan .plain neighbours).map Secrets.Finding.redactedExcerpt =
        ["«redacted» secret: bbbbbbbbbbb".toList, "n: aaaaaaaaaaaaaaaa «redacted»".toList] ∧
      (Secrets.scan .plain overlong).map Secrets.Finding.redactedExcerpt =
        ["«redacted»aaaaaaaaaaaaaaaaaaaa".toList] ∧
      ¬ Secrets.Conceals .plain neighbours ∧ ¬ Secrets.Conceals .plain overlong := by
  refine ⟨by decide +kernel, by decide +kernel, fun h => ?_, fun h => ?_⟩
  · have hspans : (Secrets.found .plain neighbours).map (fun f => (f.start, f.stop)) =
        [(0, 23), (24, 48)] := by decide +kernel
    obtain ⟨f, hf, hfspan⟩ := List.mem_map.1 (hspans ▸ List.mem_cons_self)
    obtain ⟨g, hg, hgspan⟩ := List.mem_map.1
      (hspans ▸ List.mem_cons_of_mem _ List.mem_cons_self)
    obtain ⟨hfstart, hfstop⟩ := Prod.mk.inj hfspan
    obtain ⟨hgstart, hgstop⟩ := Prod.mk.inj hgspan
    have hcontext : Secrets.contextBytes = 20 := rfl
    have hapart := ((Secrets.conceals_iff _ _).1 h).apart f hf g hg
    omega
  · have hrun : (Secrets.found .plain overlong).map Secrets.Spot.continuation =
        [List.replicate 20 'a'] := by decide +kernel
    obtain ⟨f, hf, hcontinuation⟩ := List.mem_map.1 (hrun ▸ List.mem_cons_self)
    rw [((Secrets.conceals_iff _ _).1 h).ends f hf] at hcontinuation
    cases hcontinuation

end Cli

end Wkp
