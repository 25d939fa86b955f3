import Mathlib.Data.List.Induction

/-!
# Runs of a labelled step relation

A run follows a step relation over a list of labels, one step for each. Runs compose and split at
any point of the list, and keep what every step keeps.
-/

namespace Runs

variable {σ ρ : Type}

inductive Run (step : σ → ρ → σ → Prop) (start : σ) : List ρ → σ → Prop where
  | nil : Run step start [] start
  | snoc {labels : List ρ} {label : ρ} {s t : σ} (h : Run step start labels s)
      (hstep : step s label t) : Run step start (labels ++ [label]) t

variable {step : σ → ρ → σ → Prop} {start s t : σ} {left right : List ρ}

theorem Run.single {label : ρ} (h : step start label t) : Run step start [label] t :=
  Run.snoc Run.nil h

theorem Run.append (hleft : Run step start left s) (hright : Run step s right t) :
    Run step start (left ++ right) t := by
  induction hright with
  | nil =>
      rw [List.append_nil]
      exact hleft
  | snoc _ hstep ih =>
      rw [← List.append_assoc]
      exact ih.snoc hstep

theorem Run.cons {label : ρ} (hfirst : step start label s) (hrest : Run step s right t) :
    Run step start (label :: right) t :=
  (Run.single hfirst).append hrest

theorem Run.eq_of_nil (h : Run step start [] s) : s = start := by
  generalize hlabels : ([] : List ρ) = labels at h
  cases h with
  | nil => rfl
  | snoc _ _ => simp at hlabels

theorem Run.of_concat {label : ρ} (h : Run step start (left ++ [label]) t) :
    ∃ s, Run step start left s ∧ step s label t := by
  generalize hlabels : left ++ [label] = labels at h
  cases h with
  | nil => simp at hlabels
  | snoc hrun hstep =>
      have hsame := List.append_inj' hlabels rfl
      rw [hsame.1, (List.cons.inj hsame.2).1]
      exact ⟨_, hrun, hstep⟩

theorem Run.split (h : Run step start (left ++ right) t) :
    ∃ s, Run step start left s ∧ Run step s right t := by
  induction right using List.reverseRecOn generalizing t with
  | nil =>
      rw [List.append_nil] at h
      exact ⟨t, h, Run.nil⟩
  | append_singleton right label ih =>
      rw [← List.append_assoc] at h
      obtain ⟨middle, hrun, hstep⟩ := h.of_concat
      obtain ⟨s, hleft, hright⟩ := ih hrun
      exact ⟨s, hleft, hright.snoc hstep⟩

theorem Run.of_cons {label : ρ} (h : Run step start (label :: right) t) :
    ∃ s, step start label s ∧ Run step s right t := by
  rw [← List.singleton_append] at h
  obtain ⟨s, hleft, hright⟩ := h.split
  obtain ⟨first, hnil, hstep⟩ := @Run.of_concat σ ρ step start s [] label hleft
  rw [hnil.eq_of_nil] at hstep
  exact ⟨s, hstep, hright⟩

/-- Where each step has one end at most, so has each run. -/
theorem Run.unique (hstep : ∀ s label t u, step s label t → step s label u → t = u)
    (hleft : Run step start left s) (hright : Run step start left t) : s = t := by
  induction hleft generalizing t with
  | nil => exact hright.eq_of_nil.symm
  | @snoc labels label middle after _ hlast ih =>
      obtain ⟨other, hrun, hother⟩ := hright.of_concat
      rw [← ih hrun] at hother
      exact hstep middle label after t hlast hother

/-- What holds of the start and is kept by every step holds of every run. -/
theorem Run.invariant {I : List ρ → σ → Prop} (hstart : I [] start)
    (hkept : ∀ labels s label t, I labels s → step s label t → I (labels ++ [label]) t)
    (h : Run step start left s) : I left s := by
  induction h with
  | nil => exact hstart
  | snoc _ hstep ih => exact hkept _ _ _ _ ih hstep

end Runs
