import Mathlib.Tactic.Common

/-!
# Runs that question a sequence

A computation that asks an infinite sequence for its entries in order and keeps in its state how
many it has asked for. `Causal` compares two such computations, each with a sequence of its own: the
left one never goes back, and where the sequences agree on all that the left run asked for, the
right run is the same run.
-/

namespace Questions

variable {ε σ ρ α β : Type}

def finalOf : EStateM.Result ε σ α → σ
  | .ok _ s => s
  | .error _ s => s

/-- The left result, of a run from `s`, comes no earlier than `s`, and is the right result wherever
the two sequences agree before the position the left run ended at. -/
structure Continues (position : σ → Nat) (left right : Nat → ρ) (s : σ)
    (result other : EStateM.Result ε σ α) : Prop where
  forward : position s ≤ position (finalOf result)
  same : (∀ index < position (finalOf result), left index = right index) → other = result

def Causal (position : σ → Nat) (left right : Nat → ρ) (x y : EStateM ε σ α) : Prop :=
  ∀ s, Continues position left right s (x s) (y s)

variable {position : σ → Nat} {left right : Nat → ρ}

/-- A computation that asks nothing. -/
theorem Causal.silent {x : EStateM ε σ α} (h : ∀ s, position s ≤ position (finalOf (x s))) :
    Causal position left right x x :=
  fun s => ⟨h s, fun _ => rfl⟩

theorem Causal.pure (a : α) : Causal position left right (pure a : EStateM ε σ α) (pure a) :=
  Causal.silent fun s => Nat.le_refl (position s)

theorem Causal.throw (e : ε) : Causal position left right (throw e : EStateM ε σ α) (throw e) :=
  Causal.silent fun s => Nat.le_refl (position s)

theorem Causal.modify {f : σ → σ} (h : ∀ s, position s ≤ position (f s)) :
    Causal position left right (modify f : EStateM ε σ Unit) (modify f) :=
  Causal.silent h

theorem Causal.get : Causal position left right (get : EStateM ε σ σ) get :=
  Causal.silent fun s => Nat.le_refl (position s)

theorem Causal.bind {x y : EStateM ε σ α} {f g : α → EStateM ε σ β}
    (hx : Causal position left right x y) (hf : ∀ a, Causal position left right (f a) (g a)) :
    Causal position left right (x >>= f) (y >>= g) := by
  intro s
  have hfirst := hx s
  cases hrun : x s with
  | ok a t =>
      rw [hrun] at hfirst
      have hnext := hf a t
      have hbind : (x >>= f) s = f a t := by simp only [Bind.bind, EStateM.bind, hrun]
      rw [hbind]
      refine ⟨Nat.le_trans hfirst.forward hnext.forward, fun hagree => ?_⟩
      -- what the first part asked for lies before the position the whole run ends at
      have hy : y s = .ok a t := hfirst.same fun index hindex =>
        hagree index (Nat.lt_of_lt_of_le hindex hnext.forward)
      calc (y >>= g) s = g a t := by simp only [Bind.bind, EStateM.bind, hy]
        _ = f a t := hnext.same hagree
  | error e t =>
      rw [hrun] at hfirst
      have hbind : (x >>= f) s = .error e t := by simp only [Bind.bind, EStateM.bind, hrun]
      rw [hbind]
      refine ⟨hfirst.forward, fun hagree => ?_⟩
      have hy : y s = .error e t := hfirst.same hagree
      simp only [Bind.bind, EStateM.bind, hy]

theorem Causal.ite {c d : Prop} [Decidable c] [Decidable d] {x x' y y' : EStateM ε σ α}
    (hcd : c ↔ d) (hx : c → Causal position left right x y)
    (hy : ¬c → Causal position left right x' y') :
    Causal position left right (if c then x else x') (if d then y else y') := by
  by_cases h : c
  · rw [if_pos h, if_pos (hcd.mp h)]
    exact hx h
  · rw [if_neg h, if_neg (fun hd => h (hcd.mpr hd))]
    exact hy h

end Questions
