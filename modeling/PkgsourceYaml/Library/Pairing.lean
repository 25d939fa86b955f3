import Mathlib.Data.List.Forall2

/-!
# Flat lists of pairs

A list whose elements alternate between a key and its value, read two at a time.
-/

namespace Pairing

variable {α β : Type}

/-- The pairs of a flat list; a last element without partner is dropped. -/
def pairs : List α → List (α × α)
  | [] => []
  | [_] => []
  | key :: value :: rest => (key, value) :: pairs rest

@[simp] theorem pairs_nil : pairs ([] : List α) = [] := rfl

@[simp] theorem pairs_cons_cons (key value : α) (rest : List α) :
    pairs (key :: value :: rest) = (key, value) :: pairs rest := rfl

theorem mem_of_mem_pairs {list : List α} {pair : α × α} (h : pair ∈ pairs list) :
    pair.1 ∈ list ∧ pair.2 ∈ list := by
  induction list using pairs.induct with
  | case1 => simp at h
  | case2 last => simp [pairs] at h
  | case3 key value rest ih =>
      rw [pairs_cons_cons, List.mem_cons] at h
      rcases h with rfl | h
      · simp
      · have hrest := ih h
        exact ⟨by simp [hrest.1], by simp [hrest.2]⟩

/-- Induction on a list of even length, two elements at a time. -/
theorem even_induction {motive : List α → Prop} (nil : motive [])
    (step : ∀ key value rest, rest.length % 2 = 0 → motive rest → motive (key :: value :: rest))
    {list : List α} (even : list.length % 2 = 0) : motive list := by
  induction list using pairs.induct with
  | case1 => exact nil
  | case2 last => simp at even
  | case3 key value rest ih =>
      have hrest : rest.length % 2 = 0 := by
        simp only [List.length_cons] at even
        omega
      exact step key value rest hrest (ih hrest)

def unpairs : List (α × α) → List α
  | [] => []
  | (key, value) :: rest => key :: value :: unpairs rest

@[simp] theorem pairs_unpairs (list : List (α × α)) : pairs (unpairs list) = list := by
  induction list with
  | nil => rfl
  | cons pair rest ih => rw [unpairs, pairs_cons_cons, ih]

@[simp] theorem length_unpairs (list : List (α × α)) : (unpairs list).length = 2 * list.length := by
  induction list with
  | nil => rfl
  | cons pair rest ih =>
      simp only [unpairs, List.length_cons, ih]
      omega

theorem unpairs_pairs {list : List α} (even : list.length % 2 = 0) :
    unpairs (pairs list) = list := by
  refine even_induction (motive := fun list => unpairs (pairs list) = list) rfl ?_ even
  intro key value rest _ ih
  rw [pairs_cons_cons, unpairs, ih]

/-- Pairs related component by component flatten to lists related entry by entry. -/
theorem forall₂_unpairs {R : α → β → Prop} {left : List (α × α)} {right : List (β × β)}
    (h : List.Forall₂ (fun p q => R p.1 q.1 ∧ R p.2 q.2) left right) :
    List.Forall₂ R (unpairs left) (unpairs right) := by
  induction h with
  | nil => exact List.Forall₂.nil
  | cons hpair _ ih => exact List.Forall₂.cons hpair.1 (List.Forall₂.cons hpair.2 ih)

theorem exists_mem_pairs {list : List α} (even : list.length % 2 = 0) {a : α} (h : a ∈ list) :
    ∃ pair ∈ pairs list, a = pair.1 ∨ a = pair.2 := by
  revert h
  refine even_induction (motive := fun list => a ∈ list → ∃ pair ∈ pairs list,
    a = pair.1 ∨ a = pair.2) ?_ ?_ even
  · exact fun h => absurd h List.not_mem_nil
  · intro key value rest _ ih h
    rcases List.mem_cons.mp h with rfl | h
    · exact ⟨(a, value), by simp, Or.inl rfl⟩
    rcases List.mem_cons.mp h with rfl | h
    · exact ⟨(key, a), by simp, Or.inr rfl⟩
    obtain ⟨pair, hpair, heq⟩ := ih h
    exact ⟨pair, by simp [hpair], heq⟩

/-- A list related to one that starts with a pair starts with a related pair. -/
theorem exists_pair_of_forall₂ {R : α → β → Prop} {key value : α} {rest : List α} {right : List β}
    (h : List.Forall₂ R (key :: value :: rest) right) :
    ∃ key' value' rest', R key key' ∧ R value value' ∧ List.Forall₂ R rest rest' ∧
      right = key' :: value' :: rest' := by
  obtain ⟨key', tail, hkey, htail, rfl⟩ := List.forall₂_cons_left_iff.mp h
  obtain ⟨value', rest', hvalue, hrest, rfl⟩ := List.forall₂_cons_left_iff.mp htail
  exact ⟨key', value', rest', hkey, hvalue, hrest, rfl⟩

/-- Lists related entry by entry have pairs that are related component by component. -/
theorem forall₂_pairs {R : α → β → Prop} {left : List α} {right : List β}
    (h : List.Forall₂ R left right) :
    List.Forall₂ (fun p q => R p.1 q.1 ∧ R p.2 q.2) (pairs left) (pairs right) := by
  induction left using pairs.induct generalizing right with
  | case1 =>
      cases h
      exact List.Forall₂.nil
  | case2 last =>
      obtain ⟨other, rest, -, hrest, rfl⟩ := List.forall₂_cons_left_iff.mp h
      cases hrest
      exact List.Forall₂.nil
  | case3 key value rest ih =>
      obtain ⟨key', value', others, hkey, hvalue, hothers, rfl⟩ := exists_pair_of_forall₂ h
      exact List.Forall₂.cons ⟨hkey, hvalue⟩ (ih hothers)

/-- Induction on two lists related entry by entry, two elements of each at a time. -/
theorem even_induction₂ {R : α → β → Prop} {motive : List α → List β → Prop}
    (nil : motive [] [])
    (step : ∀ key value rest key' value' rest', R key key' → R value value' →
      motive rest rest' → motive (key :: value :: rest) (key' :: value' :: rest'))
    {left : List α} {right : List β} (h : List.Forall₂ R left right)
    (even : left.length % 2 = 0) : motive left right := by
  revert right
  refine even_induction (motive := fun left => ∀ {right : List β}, List.Forall₂ R left right →
    motive left right) ?_ ?_ even
  · intro right h
    rw [List.forall₂_nil_left_iff] at h
    rw [h]
    exact nil
  · intro key value rest _ ih right h
    obtain ⟨key', value', others, hkey, hvalue, hothers, rfl⟩ := exists_pair_of_forall₂ h
    exact step key value rest key' value' others hkey hvalue (ih hothers)

end Pairing
