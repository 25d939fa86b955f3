import Mathlib.Data.List.Forall2
import Mathlib.Data.List.Nodup
import Mathlib.Data.List.Perm.Subperm

/-!
# Drawing from a list

What is drawn from different entries of a list is drawn from the list, with nothing used twice. The
entries are told apart by their position, or by distinct keys that they are looked up under.
-/

namespace Portions

variable {α β γ κ : Type} {f : α → List γ}

/-- Values that draw from one entry each draw from the whole list. -/
theorem subperm_flatMap_of_forall₂ {g : β → List γ} {list : List α} {values : List β}
    (h : List.Forall₂ (fun a b => (g b).Subperm (f a)) list values) :
    (values.flatMap g).Subperm (list.flatMap f) := by
  induction h with
  | nil => exact List.Subperm.refl []
  | cons hfirst _ ih =>
      rw [List.flatMap_cons, List.flatMap_cons]
      exact hfirst.append ih

/-- What is found under distinct keys is found at distinct places. -/
theorem subperm_flatMap_find? [DecidableEq κ] (key : α → κ) (list : List α) {keys : List κ}
    (hkeys : keys.Nodup) :
    (keys.flatMap fun k => (list.find? (key · = k)).elim [] f).Subperm (list.flatMap f) := by
  induction list generalizing keys with
  | nil => simp
  | cons first rest ih =>
      have hother : ∀ {others : List κ}, key first ∉ others →
          (others.flatMap fun k => ((first :: rest).find? (key · = k)).elim [] f) =
            others.flatMap fun k => (rest.find? (key · = k)).elim [] f := by
        intro others hfirst
        refine List.flatMap_congr fun k hk => ?_
        have hne : key first ≠ k := fun heq => hfirst (heq ▸ hk)
        rw [List.find?_cons_of_neg (by simpa using hne)]
      rw [List.flatMap_cons]
      by_cases hmem : key first ∈ keys
      · -- the first entry goes to its own key, the rest to the others
        have hsplit := (List.perm_cons_erase hmem).flatMap_right
          fun k => ((first :: rest).find? (key · = k)).elim [] f
        rw [List.flatMap_cons, hother hkeys.not_mem_erase,
          List.find?_cons_of_pos (by simp)] at hsplit
        exact hsplit.subperm.trans ((List.Subperm.refl (f first)).append (ih (hkeys.erase _)))
      · rw [hother hmem]
        exact (ih hkeys).trans (List.sublist_append_right _ _).subperm

/-- Parts that are drawn from what is found under distinct keys. -/
theorem subperm_flatten_of_keys [DecidableEq κ] (key : α → κ) {list : List α} {keys : List κ}
    {parts : List (List γ)} (hkeys : keys.Nodup)
    (h : List.Forall₂ (fun k part =>
      part.Subperm ((list.find? (key · = k)).elim [] f)) keys parts) :
    parts.flatten.Subperm (list.flatMap f) := by
  have hparts := @subperm_flatMap_of_forall₂ _ _ _ _ id keys parts h
  rw [List.flatMap_id] at hparts
  exact hparts.trans (subperm_flatMap_find? key list hkeys)

end Portions
