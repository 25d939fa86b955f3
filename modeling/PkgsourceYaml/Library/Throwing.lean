import Mathlib.Tactic.Common

/-!
# Reasoning about computations that may throw

Rules for two kinds of computation: `Except ε α`, which returns or throws, and `EStateM ε σ α`,
which also carries a state that survives the throw. For the first there are inversion lemmas,
`Throws`, a bound on what may be thrown, and `Agrees`, which relates how two computations end. For
the second there are `Meets`, a postcondition for either ending, and `Tracks`, which relates two
runs step by step and lets the left one give up early.
-/

namespace Throwing

section Except

variable {ε α β : Type}

theorem bind_eq_ok {x : Except ε α} {f : α → Except ε β} {b : β} :
    (x >>= f) = .ok b ↔ ∃ a, x = .ok a ∧ f a = .ok b := by
  cases x <;> simp [bind, Except.bind]

theorem bind_eq_error {x : Except ε α} {f : α → Except ε β} {e : ε} :
    (x >>= f) = .error e ↔ x = .error e ∨ ∃ a, x = .ok a ∧ f a = .error e := by
  cases x <;> simp [bind, Except.bind]

theorem bind_of_ok {x : Except ε α} {f : α → Except ε β} {a : α} (hx : x = .ok a) :
    (x >>= f) = f a := by
  rw [hx]
  rfl

theorem pure_eq_ok {a b : α} : (pure a : Except ε α) = .ok b ↔ a = b := by
  simp [pure, Except.pure]

theorem throw_eq_ok {e : ε} {b : α} : (throw e : Except ε α) = .ok b ↔ False := by
  simp [throw, throwThe, MonadExceptOf.throw]

theorem pure_eq_error {a : α} {e : ε} : (pure a : Except ε α) = .error e ↔ False := by
  simp [pure, Except.pure]

theorem throw_eq_error {e e' : ε} : (throw e : Except ε α) = .error e' ↔ e = e' := by
  simp [throw, throwThe, MonadExceptOf.throw]

theorem ite_throw_eq_ok {c : Prop} [Decidable c] {e : ε} {x : Except ε α} {b : α} :
    (if c then throw e else x) = .ok b ↔ ¬c ∧ x = .ok b := by
  by_cases h : c <;> simp [h, throw_eq_ok]

def Throws (x : Except ε α) (E : ε → Prop) : Prop :=
  ∀ e, x = .error e → E e

theorem Throws.pure {a : α} {E : ε → Prop} : Throws (pure a) E :=
  fun _ h => (pure_eq_error.mp h).elim

theorem Throws.throw {e : ε} {E : ε → Prop} (h : E e) : Throws (throw e : Except ε α) E :=
  fun _ he => throw_eq_error.mp he ▸ h

theorem Throws.bind {x : Except ε α} {f : α → Except ε β} {E : ε → Prop} (hx : Throws x E)
    (hf : ∀ a, x = .ok a → Throws (f a) E) : Throws (x >>= f) E := by
  intro e he
  rcases bind_eq_error.mp he with h | ⟨a, ha, h⟩
  · exact hx e h
  · exact hf a ha e h

theorem Throws.ite {c : Prop} [Decidable c] {x y : Except ε α} {E : ε → Prop}
    (hx : c → Throws x E) (hy : ¬c → Throws y E) : Throws (if c then x else y) E := by
  by_cases h : c
  · rw [if_pos h]
    exact hx h
  · rw [if_neg h]
    exact hy h

theorem Throws.mono {x : Except ε α} {E F : ε → Prop} (hx : Throws x E) (h : ∀ e, E e → F e) :
    Throws x F :=
  fun e he => h e (hx e he)

end Except

section Agrees

variable {ε ε' α α' β β' : Type} {E : ε → ε' → Prop} {Q : α → α' → Prop}

/-- Two computations end alike: both return related values, or both throw related exceptions. -/
inductive Agrees (E : ε → ε' → Prop) (Q : α → α' → Prop) : Except ε α → Except ε' α' → Prop where
  | ok {a : α} {b : α'} (h : Q a b) : Agrees E Q (.ok a) (.ok b)
  | error {e : ε} {e' : ε'} (h : E e e') : Agrees E Q (.error e) (.error e')

theorem Agrees.pure {a : α} {b : α'} (h : Q a b) :
    Agrees E Q (pure a : Except ε α) (pure b : Except ε' α') := .ok h

theorem Agrees.throw {e : ε} {e' : ε'} (h : E e e') :
    Agrees E Q (throw e : Except ε α) (throw e' : Except ε' α') := .error h

theorem Agrees.refl {E : ε → ε → Prop} (hrefl : ∀ e, E e e) (x : Except ε α) :
    Agrees E Eq x x := by
  cases x with
  | ok a => exact .ok rfl
  | error e => exact .error (hrefl e)

theorem Agrees.bind {x : Except ε α} {y : Except ε' α'} {f : α → Except ε β}
    {g : α' → Except ε' β'} {P : β → β' → Prop} (h : Agrees E Q x y)
    (hnext : ∀ a b, x = .ok a → y = .ok b → Q a b → Agrees E P (f a) (g b)) :
    Agrees E P (x >>= f) (y >>= g) := by
  cases h with
  | ok h => exact hnext _ _ rfl rfl h
  | error h => exact .error h

/-- Where both return the same value, the rest is compared at that value. -/
theorem Agrees.bind_same {x : Except ε α} {y : Except ε' α} {f : α → Except ε β}
    {g : α → Except ε' β'} {P : β → β' → Prop} (h : Agrees E Eq x y)
    (hnext : ∀ a, Agrees E P (f a) (g a)) : Agrees E P (x >>= f) (y >>= g) := by
  apply h.bind
  intro a b _ _ hsame
  rw [hsame]
  exact hnext b

theorem Agrees.ite {c d : Prop} [Decidable c] [Decidable d] {x x' : Except ε α}
    {y y' : Except ε' α'} (hcd : c ↔ d) (hx : c → Agrees E Q x y) (hy : ¬c → Agrees E Q x' y') :
    Agrees E Q (if c then x else x') (if d then y else y') := by
  by_cases h : c
  · rw [if_pos h, if_pos (hcd.mp h)]
    exact hx h
  · rw [if_neg h, if_neg (fun hd => h (hcd.mpr hd))]
    exact hy h

theorem Agrees.mono {E' : ε → ε' → Prop} {Q' : α → α' → Prop} {x : Except ε α}
    {y : Except ε' α'} (h : Agrees E Q x y) (hE : ∀ e e', E e e' → E' e e')
    (hQ : ∀ a b, Q a b → Q' a b) : Agrees E' Q' x y := by
  cases h with
  | ok h => exact .ok (hQ _ _ h)
  | error h => exact .error (hE _ _ h)

/-- What agrees with a computation that returns, returns as well. -/
theorem Agrees.exists_of_ok {a : α} {y : Except ε' α'} (h : Agrees E Q (.ok a) y) :
    ∃ b, y = .ok b ∧ Q a b := by
  cases h with
  | ok h => exact ⟨_, rfl, h⟩

theorem Agrees.eq {x y : Except ε α} (h : Agrees Eq Eq x y) : x = y := by
  cases h with
  | ok h => rw [h]
  | error h => rw [h]

end Agrees

section Meets

variable {ε σ α β : Type}

/-- Run from `s`, the computation returns into `Q` or throws into `E`. -/
def Meets (x : EStateM ε σ α) (s : σ) (Q : α → σ → Prop) (E : ε → σ → Prop) : Prop :=
  match x s with
  | .ok a t => Q a t
  | .error e t => E e t

theorem Meets.ok {x : EStateM ε σ α} {s t : σ} {a : α} {Q : α → σ → Prop} {E : ε → σ → Prop}
    (h : Meets x s Q E) (hx : x s = .ok a t) : Q a t := by
  rwa [Meets, hx] at h

theorem Meets.error {x : EStateM ε σ α} {s t : σ} {e : ε} {Q : α → σ → Prop} {E : ε → σ → Prop}
    (h : Meets x s Q E) (hx : x s = .error e t) : E e t := by
  rwa [Meets, hx] at h

theorem Meets.pure {a : α} {s : σ} {Q : α → σ → Prop} {E : ε → σ → Prop} (h : Q a s) :
    Meets (pure a : EStateM ε σ α) s Q E := h

theorem Meets.throw {e : ε} {s : σ} {Q : α → σ → Prop} {E : ε → σ → Prop} (h : E e s) :
    Meets (throw e : EStateM ε σ α) s Q E := h

theorem Meets.modify {f : σ → σ} {s : σ} {Q : Unit → σ → Prop} {E : ε → σ → Prop}
    (h : Q () (f s)) : Meets (modify f : EStateM ε σ Unit) s Q E := h

theorem Meets.bind {x : EStateM ε σ α} {f : α → EStateM ε σ β} {s : σ} {Q : β → σ → Prop}
    {E : ε → σ → Prop} (h : Meets x s (fun a t => Meets (f a) t Q E) E) :
    Meets (x >>= f) s Q E := by
  unfold Meets at h ⊢
  simp only [Bind.bind, EStateM.bind]
  cases hx : x s with
  | ok a t => simpa [hx] using h
  | error e t => simpa [hx] using h

theorem Meets.mono {x : EStateM ε σ α} {s : σ} {Q Q' : α → σ → Prop} {E E' : ε → σ → Prop}
    (h : Meets x s Q E) (hQ : ∀ a t, x s = .ok a t → Q a t → Q' a t)
    (hE : ∀ e t, x s = .error e t → E e t → E' e t) : Meets x s Q' E' := by
  unfold Meets at h ⊢
  cases hx : x s with
  | ok a t => exact hQ a t hx (by simpa [hx] using h)
  | error e t => exact hE e t hx (by simpa [hx] using h)

theorem Meets.ite {c : Prop} [Decidable c] {x y : EStateM ε σ α} {s : σ} {Q : α → σ → Prop}
    {E : ε → σ → Prop} (hx : c → Meets x s Q E) (hy : ¬c → Meets y s Q E) :
    Meets (if c then x else y) s Q E := by
  by_cases h : c
  · rw [if_pos h]
    exact hx h
  · rw [if_neg h]
    exact hy h

end Meets

section Tracks

variable {ε ε' σ σ' α α' β β' : Type}

/-- The run of `x` from `s` follows the run of `y` from `t`: both return with related results, both
throw related exceptions, or `x` throws an exception of the kind `A` that lets it give up. -/
def Tracks (A : ε → Prop) (E : ε → σ → ε' → σ' → Prop) (x : EStateM ε σ α) (s : σ)
    (y : EStateM ε' σ' α') (t : σ') (Q : α → σ → α' → σ' → Prop) : Prop :=
  match x s, y t with
  | .ok a s', .ok b t' => Q a s' b t'
  | .error e s', .error e' t' => A e ∨ E e s' e' t'
  | .error e _, .ok _ _ => A e
  | .ok _ _, .error _ _ => False

variable {A : ε → Prop} {E : ε → σ → ε' → σ' → Prop} {x : EStateM ε σ α} {s : σ}
  {y : EStateM ε' σ' α'} {t : σ'}

theorem Tracks.pure {a : α} {b : α'} {Q : α → σ → α' → σ' → Prop} (h : Q a s b t) :
    Tracks A E (pure a) s (pure b) t Q := h

theorem Tracks.throw {e : ε} {e' : ε'} {Q : α → σ → α' → σ' → Prop} (h : E e s e' t) :
    Tracks A E (throw e) s (throw e') t Q := Or.inr h

theorem Tracks.modify {f : σ → σ} {g : σ' → σ'} {Q : Unit → σ → Unit → σ' → Prop}
    (h : Q () (f s) () (g t)) : Tracks A E (modify f) s (modify g) t Q := h

theorem Tracks.abandon {e : ε} {Q : α → σ → α' → σ' → Prop} (h : A e) :
    Tracks A E (MonadExcept.throw e) s y t Q := by
  unfold Tracks
  change match EStateM.Result.error e s, y t with
    | .ok a s', .ok b t' => Q a s' b t'
    | .error e s', .error e' t' => A e ∨ E e s' e' t'
    | .error e _, .ok _ _ => A e
    | .ok _ _, .error _ _ => False
  cases y t with
  | ok b t' => exact h
  | error e' t' => exact Or.inl h

theorem Tracks.bind {f : α → EStateM ε σ β} {g : α' → EStateM ε' σ' β'}
    {Q : β → σ → β' → σ' → Prop}
    (h : Tracks A E x s y t (fun a s' b t' => Tracks A E (f a) s' (g b) t' Q)) :
    Tracks A E (x >>= f) s (y >>= g) t Q := by
  unfold Tracks at h ⊢
  simp only [Bind.bind, EStateM.bind]
  cases hx : x s with
  | ok a s' =>
      cases hy : y t with
      | ok b t' => simpa [hx, hy] using h
      | error e' t' => simp [hx, hy] at h
  | error e s' =>
      cases hy : y t with
      | ok b t' =>
          have hgive : A e := by simpa [hx, hy] using h
          simp only
          cases g b t' with
          | ok c u => exact hgive
          | error e' u => exact Or.inl hgive
      | error e' t' => simpa [hx, hy] using h

theorem Tracks.mono {Q Q' : α → σ → α' → σ' → Prop} (h : Tracks A E x s y t Q)
    (hQ : ∀ a s' b t', Q a s' b t' → Q' a s' b t') : Tracks A E x s y t Q' := by
  unfold Tracks at h ⊢
  cases hx : x s with
  | ok a s' =>
      cases hy : y t with
      | ok b t' => exact hQ a s' b t' (by simpa [hx, hy] using h)
      | error e' t' => simp [hx, hy] at h
  | error e s' =>
      cases hy : y t with
      | ok b t' => simpa [hx, hy] using h
      | error e' t' => simpa [hx, hy] using h

theorem Tracks.ite {c d : Prop} [Decidable c] [Decidable d] {x' : EStateM ε σ α}
    {y' : EStateM ε' σ' α'} {Q : α → σ → α' → σ' → Prop} (hcd : c ↔ d)
    (hx : c → Tracks A E x s y t Q) (hy : ¬c → Tracks A E x' s y' t Q) :
    Tracks A E (if c then x else x') s (if d then y else y') t Q := by
  by_cases h : c
  · rw [if_pos h, if_pos (hcd.mp h)]
    exact hx h
  · rw [if_neg h, if_neg (fun hd => h (hcd.mpr hd))]
    exact hy h

/-- When the right run returns, the left run returns the related result or gives up. -/
theorem Tracks.of_ok {Q : α → σ → α' → σ' → Prop} {b : α'} {t' : σ'} (h : Tracks A E x s y t Q)
    (hy : y t = .ok b t') :
    (∃ a s', x s = .ok a s' ∧ Q a s' b t') ∨ ∃ e s', x s = .error e s' ∧ A e := by
  unfold Tracks at h
  cases hx : x s with
  | ok a s' => exact Or.inl ⟨a, s', rfl, by simpa [hx, hy] using h⟩
  | error e s' => exact Or.inr ⟨e, s', rfl, by simpa [hx, hy] using h⟩

/-- When the right run throws, the left run throws a related exception or gives up. -/
theorem Tracks.of_error {Q : α → σ → α' → σ' → Prop} {e' : ε'} {t' : σ'}
    (h : Tracks A E x s y t Q) (hy : y t = .error e' t') :
    ∃ e s', x s = .error e s' ∧ (A e ∨ E e s' e' t') := by
  unfold Tracks at h
  cases hx : x s with
  | ok a s' => simp [hx, hy] at h
  | error e s' => exact ⟨e, s', rfl, by simpa [hx, hy] using h⟩

end Tracks

end Throwing
