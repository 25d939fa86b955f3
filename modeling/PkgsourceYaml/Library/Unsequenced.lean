import PkgsourceYaml.Library.Throwing
import Mathlib.Data.List.Perm.Basic

/-!
# Operands evaluated in an unspecified order

A call whose operands may be evaluated in any order, each of which may throw: `evaluateIn` runs the
operands in one order and stops at the first that throws. When all of them return, the order is
invisible. When some throw, the order picks which exception is seen, so the outcome is the same for
every order exactly when the throwing operands agree.
-/

namespace Unsequenced

open Throwing

variable {ι ε α : Type} [DecidableEq ι] {τ : ι → Type}

def evaluateIn (operand : ∀ i, Except ε (τ i)) :
    (order : List ι) → Except ε (∀ i, i ∈ order → τ i)
  | [] => pure (fun _ h => absurd h List.not_mem_nil)
  | first :: rest => do
      let value ← operand first
      let values ← evaluateIn operand rest
      pure (fun i h =>
        if heq : i = first then heq ▸ value
        else values i ((List.mem_cons.mp h).resolve_left heq))

/-- The call itself: evaluate every operand in the given order, then go on with their values. -/
def call (operand : ∀ i, Except ε (τ i)) (order : List ι) (complete : ∀ i, i ∈ order)
    (function : (∀ i, τ i) → Except ε α) : Except ε α := do
  let values ← evaluateIn operand order
  function (fun i => values i (complete i))

variable {operand : ∀ i, Except ε (τ i)} {order : List ι}

theorem evaluateIn_ok {values : ∀ i, i ∈ order → τ i}
    (h : ∀ i (hi : i ∈ order), operand i = .ok (values i hi)) :
    evaluateIn operand order = .ok values := by
  induction order with
  | nil =>
      rw [evaluateIn, pure_eq_ok]
      funext i hi
      exact absurd hi List.not_mem_nil
  | cons first rest ih =>
      have hfirst := h first List.mem_cons_self
      have hrest : evaluateIn operand rest =
          .ok (fun i hi => values i (List.mem_cons_of_mem first hi)) :=
        ih fun i hi => h i (List.mem_cons_of_mem first hi)
      rw [evaluateIn, bind_eq_ok]
      refine ⟨_, hfirst, bind_eq_ok.mpr ⟨_, hrest, pure_eq_ok.mpr ?_⟩⟩
      funext i hi
      by_cases heq : i = first
      · subst heq
        simp
      · simp [heq]

/-- An operand that throws ends the evaluation with the exception of some operand of the order. -/
theorem evaluateIn_error {e : ε} (h : evaluateIn operand order = .error e) :
    ∃ i ∈ order, operand i = .error e := by
  induction order with
  | nil => exact (pure_eq_error.mp h).elim
  | cons first rest ih =>
      rw [evaluateIn, bind_eq_error] at h
      rcases h with hfirst | ⟨value, -, h⟩
      · exact ⟨first, List.mem_cons_self, hfirst⟩
      · rcases bind_eq_error.mp h with hrest | ⟨values, -, h⟩
        · obtain ⟨i, hi, he⟩ := ih hrest
          exact ⟨i, List.mem_cons_of_mem first hi, he⟩
        · exact (pure_eq_error.mp h).elim

theorem evaluateIn_eq_ok_iff {values : ∀ i, i ∈ order → τ i} :
    evaluateIn operand order = .ok values ↔
      ∀ i (hi : i ∈ order), operand i = .ok (values i hi) := by
  refine ⟨fun h => ?_, evaluateIn_ok⟩
  induction order with
  | nil => exact fun i hi => absurd hi List.not_mem_nil
  | cons first rest ih =>
      rw [evaluateIn, bind_eq_ok] at h
      obtain ⟨value, hvalue, h⟩ := h
      obtain ⟨others, hothers, h⟩ := bind_eq_ok.mp h
      rw [pure_eq_ok] at h
      intro i hi
      rw [← h]
      by_cases heq : i = first
      · subst heq
        simpa using hvalue
      · simpa [heq] using ih hothers i ((List.mem_cons.mp hi).resolve_left heq)

variable {function : (∀ i, τ i) → Except ε α} {complete : ∀ i, i ∈ order}

theorem call_eq_ok_iff {a : α} :
    call operand order complete function = .ok a ↔
      ∃ values : ∀ i, τ i, (∀ i, operand i = .ok (values i)) ∧ function values = .ok a := by
  rw [call, bind_eq_ok]
  constructor
  · rintro ⟨values, hvalues, ha⟩
    exact ⟨fun i => values i (complete i),
      fun i => evaluateIn_eq_ok_iff.mp hvalues i (complete i), ha⟩
  · rintro ⟨values, hvalues, ha⟩
    exact ⟨fun i _ => values i, evaluateIn_ok fun i _ => hvalues i, ha⟩

/-- A call throws what one of its operands throws, or what the function throws on their values. -/
theorem call_eq_error {e : ε} (h : call operand order complete function = .error e) :
    (∃ i, operand i = .error e) ∨
      ∃ values : ∀ i, τ i, (∀ i, operand i = .ok (values i)) ∧ function values = .error e := by
  rw [call, bind_eq_error] at h
  rcases h with h | ⟨values, hvalues, h⟩
  · obtain ⟨i, -, he⟩ := evaluateIn_error h
    exact Or.inl ⟨i, he⟩
  · exact Or.inr ⟨fun i => values i (complete i),
      fun i => evaluateIn_eq_ok_iff.mp hvalues i (complete i), h⟩

/-- An operand evaluated first decides the outcome when it throws. -/
theorem call_eq_error_of_first {first : ι} {rest : List ι}
    {complete : ∀ i, i ∈ first :: rest} {e : ε} (h : operand first = .error e) :
    call operand (first :: rest) complete function = .error e := by
  rw [call, bind_eq_error, evaluateIn, bind_eq_error]
  exact Or.inl (Or.inl h)

/-! ### Two families of operands -/

section Agrees

variable {ε' α' : Type} {τ' : ι → Type} {E : ε → ε' → Prop} {Q : ∀ i, τ i → τ' i → Prop}
  {operand' : ∀ i, Except ε' (τ' i)}

theorem agrees_evaluateIn (h : ∀ i, Agrees E (Q i) (operand i) (operand' i)) (order : List ι) :
    Agrees E (fun values values' => ∀ i hi, Q i (values i hi) (values' i hi))
      (evaluateIn operand order) (evaluateIn operand' order) := by
  induction order with
  | nil => exact Agrees.pure fun i hi => absurd hi List.not_mem_nil
  | cons first rest ih =>
      rw [evaluateIn, evaluateIn]
      refine (h first).bind fun value value' _ _ hvalue => ?_
      refine ih.bind fun values values' _ _ hvalues => Agrees.pure fun i hi => ?_
      by_cases heq : i = first
      · subst heq
        simpa using hvalue
      · simpa [heq] using hvalues i ((List.mem_cons.mp hi).resolve_left heq)

/-- Calls whose operands end alike, one by one and in one order, end alike themselves. -/
theorem agrees_call {function' : (∀ i, τ' i) → Except ε' α'} {P : α → α' → Prop}
    (h : ∀ i, Agrees E (Q i) (operand i) (operand' i))
    (hfunction : ∀ values values', (∀ i, Q i (values i) (values' i)) →
      Agrees E P (function values) (function' values')) :
    Agrees E P (call operand order complete function)
      (call operand' order complete function') :=
  (agrees_evaluateIn h order).bind fun _ _ _ _ hvalues =>
    hfunction _ _ fun i => hvalues i (complete i)

end Agrees

/-! ### When the order is invisible -/

def EndsAlike (R : ε → ε → Prop) (x y : Except ε α) : Prop :=
  (∃ a, x = .ok a ∧ y = .ok a) ∨ ∃ e e', x = .error e ∧ y = .error e' ∧ R e e'

/-- Where the function accepts all values, all orders of the operands end alike exactly when the
exceptions of any two operands are related. -/
theorem call_endsAlike_iff {R : ε → ε → Prop} {all : List ι} (hall : ∀ i, i ∈ all)
    (hfunction : ∀ values, ∃ a, function values = .ok a) :
    (∀ left right (hleft : left.Perm all) (hright : right.Perm all),
      EndsAlike R
        (call operand left (fun i => hleft.mem_iff.mpr (hall i)) function)
        (call operand right (fun i => hright.mem_iff.mpr (hall i)) function)) ↔
      ∀ i j e e', operand i = .error e → operand j = .error e' → R e e' := by
  have hthrown : ∀ {order : List ι} {complete : ∀ i, i ∈ order} {e : ε},
      call operand order complete function = .error e → ∃ i, operand i = .error e := by
    intro order complete e h
    rcases call_eq_error h with hoperand | ⟨values, -, hvalues⟩
    · exact hoperand
    · obtain ⟨a, ha⟩ := hfunction values
      rw [ha] at hvalues
      cases hvalues
  constructor
  · intro h i j e e' hi hj
    have hfirst := fun i => (List.perm_cons_erase (hall i)).symm
    rcases h _ _ (hfirst i) (hfirst j) with ⟨a, ha, -⟩ | ⟨d, d', hd, hd', hR⟩
    · rw [call_eq_error_of_first hi] at ha
      cases ha
    · rw [call_eq_error_of_first hi] at hd
      rw [call_eq_error_of_first hj] at hd'
      rwa [Except.error.inj hd, Except.error.inj hd']
  · intro h left right hleft hright
    cases hcall : call operand left (fun i => hleft.mem_iff.mpr (hall i)) function with
    | ok a =>
        refine Or.inl ⟨a, rfl, ?_⟩
        rw [call_eq_ok_iff] at hcall ⊢
        exact hcall
    | error e =>
        obtain ⟨i, hi⟩ := hthrown hcall
        cases hcall' : call operand right (fun i => hright.mem_iff.mpr (hall i)) function with
        | ok a =>
            obtain ⟨values, hvalues, -⟩ := call_eq_ok_iff.mp hcall'
            rw [hvalues i] at hi
            cases hi
        | error e' =>
            obtain ⟨j, hj⟩ := hthrown hcall'
            exact Or.inr ⟨e, e', rfl, rfl, h i j e e' hi hj⟩

end Unsequenced
