import PkgsourceYaml.Library.Entrywise
import PkgsourceYaml.Library.Unsequenced

/-!
# Reading through a plan

Two ways to read the same input: at once, or as a plan first that is interpreted afterwards. Where
the two agree on single entries, they agree on lists of entries and on lists of lists. `Realizes`
compares the two as computations: reading at once may stop early, for reasons of its own.
-/

namespace Interpretation

variable {α β γ ε : Type} {R : α → γ → Prop} {P : α → β → Prop} {U : β → γ → Prop}

/-- Interpreting a list is interpreting its members, in order. -/
theorem mapM_eq_ok_iff {f : α → Except ε β} {list : List α} {values : List β} :
    list.mapM f = .ok values ↔ List.Forall₂ (fun a b => f a = .ok b) list values := by
  induction list generalizing values with
  | nil => rw [List.mapM_nil, Throwing.pure_eq_ok, List.forall₂_nil_left_iff, eq_comm]
  | cons first rest ih =>
      simp only [List.mapM_cons, Throwing.bind_eq_ok, Throwing.pure_eq_ok, ih,
        List.forall₂_cons_left_iff]
      constructor
      · rintro ⟨b, hb, others, hothers, rfl⟩
        exact ⟨b, others, hb, hothers, rfl⟩
      · rintro ⟨b, others, hb, hothers, rfl⟩
        exact ⟨b, hb, others, hothers, rfl⟩

/-- Entries that are read through plans make lists that are read through lists of plans. -/
theorem forall₂_through {left : List α} {right : List γ}
    (h : ∀ a ∈ left, ∀ c, R a c ↔ ∃ b, P a b ∧ U b c) :
    List.Forall₂ R left right ↔
      ∃ middle, List.Forall₂ P left middle ∧ List.Forall₂ U middle right := by
  rw [Entrywise.forall₂_congr h]
  constructor
  · exact Entrywise.exists_between
  · rintro ⟨middle, hplans, hvalues⟩
    exact Entrywise.forall₂_trans (fun _ b _ hplan hvalue => ⟨b, hplan, hvalue⟩) hplans hvalues

theorem forall₂_append_left_iff {left left' : List α} {right : List γ} :
    List.Forall₂ R (left ++ left') right ↔
      ∃ first second, List.Forall₂ R left first ∧ List.Forall₂ R left' second ∧
        right = first ++ second := by
  induction left generalizing right with
  | nil => simp
  | cons a rest ih =>
      simp only [List.cons_append, List.forall₂_cons_left_iff, ih]
      constructor
      · rintro ⟨c, _, hc, ⟨first, second, hfirst, hsecond, rfl⟩, rfl⟩
        exact ⟨c :: first, second, ⟨c, first, hc, hfirst, rfl⟩, hsecond, rfl⟩
      · rintro ⟨_, second, ⟨c, first, hc, hfirst, rfl⟩, hsecond, rfl⟩
        exact ⟨c, first ++ second, hc, ⟨first, second, hfirst, hsecond, rfl⟩, rfl⟩

/-- What is related to a flattened list is itself flattened, group by group. -/
theorem forall₂_flatten_left_iff {left : List (List α)} {right : List γ} :
    List.Forall₂ R left.flatten right ↔
      ∃ groups, List.Forall₂ (List.Forall₂ R) left groups ∧ right = groups.flatten := by
  induction left generalizing right with
  | nil => simp
  | cons group rest ih =>
      simp only [List.flatten_cons, forall₂_append_left_iff, ih, List.forall₂_cons_left_iff]
      constructor
      · rintro ⟨first, _, hfirst, ⟨groups, hgroups, rfl⟩, rfl⟩
        exact ⟨first :: groups, ⟨first, groups, hfirst, hgroups, rfl⟩, rfl⟩
      · rintro ⟨_, ⟨first, groups, hfirst, hgroups, rfl⟩, rfl⟩
        exact ⟨first, groups.flatten, hfirst, ⟨groups, hgroups, rfl⟩, rfl⟩

/-! ### Realizing a plan -/

section Realizes

variable {Stopped : ε → Prop} {β' γ' : Type} {U' : β' → γ' → Prop}

/-- The second computation realizes the first: it returns a value that the plan stands for, throws
what the first throws, or has stopped. -/
inductive Realizes (Stopped : ε → Prop) (U : β → γ → Prop) : Except ε β → Except ε γ → Prop where
  | returned {plan : β} {value : γ} (h : U plan value) : Realizes Stopped U (.ok plan) (.ok value)
  | thrown (e : ε) : Realizes Stopped U (.error e) (.error e)
  | stopped {x : Except ε β} {e : ε} (h : Stopped e) : Realizes Stopped U x (.error e)

namespace Realizes

theorem pure {plan : β} {value : γ} (h : U plan value) :
    Realizes Stopped U (pure plan) (pure value) := .returned h

theorem throw {e : ε} : Realizes Stopped U (throw e : Except ε β) (throw e : Except ε γ) :=
  .thrown e

theorem bind {x : Except ε β} {y : Except ε γ} {f : β → Except ε β'} {g : γ → Except ε γ'}
    (h : Realizes Stopped U x y)
    (hnext : ∀ plan value, U plan value → Realizes Stopped U' (f plan) (g value)) :
    Realizes Stopped U' (x >>= f) (y >>= g) := by
  cases h with
  | returned h => exact hnext _ _ h
  | thrown e => exact .thrown e
  | stopped h => exact .stopped h

/-- What both compute alike comes first, and the rest is realized for every value of it. -/
theorem bind_same (x : Except ε α) {f : α → Except ε β} {g : α → Except ε γ}
    (hnext : ∀ a, Realizes Stopped U (f a) (g a)) : Realizes Stopped U (x >>= f) (x >>= g) := by
  cases x with
  | ok a => exact hnext a
  | error e => exact .thrown e

theorem ite {c : Prop} [Decidable c] {x x' : Except ε β} {y y' : Except ε γ}
    (hx : Realizes Stopped U x y) (hy : Realizes Stopped U x' y') :
    Realizes Stopped U (if c then x else x') (if c then y else y') := by
  by_cases h : c
  · rw [if_pos h, if_pos h]
    exact hx
  · rw [if_neg h, if_neg h]
    exact hy

theorem mono {x : Except ε β} {y : Except ε γ} {V : β → γ → Prop} (h : Realizes Stopped U x y)
    (hV : ∀ plan value, U plan value → V plan value) : Realizes Stopped V x y := by
  cases h with
  | returned h => exact .returned (hV _ _ h)
  | thrown e => exact .thrown e
  | stopped h => exact .stopped h

/-- Operands that are realized one by one are realized in any order of evaluation. -/
theorem evaluateIn {ι : Type} [DecidableEq ι] {τ τ' : ι → Type} {P : ∀ i, τ i → τ' i → Prop}
    {operand : ∀ i, Except ε (τ i)} {operand' : ∀ i, Except ε (τ' i)}
    (h : ∀ i, Realizes Stopped (P i) (operand i) (operand' i)) (order : List ι) :
    Realizes Stopped (fun values values' => ∀ i hi, P i (values i hi) (values' i hi))
      (Unsequenced.evaluateIn operand order) (Unsequenced.evaluateIn operand' order) := by
  induction order with
  | nil => exact Realizes.pure fun i hi => absurd hi List.not_mem_nil
  | cons first rest ih =>
      rw [Unsequenced.evaluateIn, Unsequenced.evaluateIn]
      refine (h first).bind fun value value' hvalue => ?_
      refine ih.bind fun values values' hvalues => Realizes.pure fun i hi => ?_
      by_cases heq : i = first
      · subst heq
        simpa using hvalue
      · simpa [heq] using hvalues i ((List.mem_cons.mp hi).resolve_left heq)

end Realizes

end Realizes

end Interpretation
