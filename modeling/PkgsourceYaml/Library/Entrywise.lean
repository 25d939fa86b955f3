import Mathlib.Data.List.Forall2
import Mathlib.Data.List.Perm.Basic
import Mathlib.Data.List.Nodup

/-!
# Lists related entry by entry

Facts about `List.Forall₂`, where the relation may be known only for the members of the left list,
and about lists that are related entry by entry once one of them is reordered.
-/

namespace Entrywise

variable {α β γ δ : Type} {Q : α → α → Prop} {R S : α → β → Prop} {U : β → γ → Prop}

theorem forall₂_congr {left : List α} {right : List β} (h : ∀ a ∈ left, ∀ b, R a b ↔ S a b) :
    List.Forall₂ R left right ↔ List.Forall₂ S left right := by
  induction left generalizing right with
  | nil => simp
  | cons first rest ih =>
      have hfirst := h first List.mem_cons_self
      have hrest := fun {right : List β} =>
        @ih right fun a ha => h a (List.mem_cons_of_mem first ha)
      simp only [List.forall₂_cons_left_iff, hfirst, hrest]

/-- Every member of the left list is related to something exactly when the whole list is. -/
theorem exists_forall₂_iff {left : List α} :
    (∃ right, List.Forall₂ R left right) ↔ ∀ a ∈ left, ∃ b, R a b := by
  induction left with
  | nil => simp
  | cons first rest ih =>
      rw [List.forall_mem_cons, ← ih]
      constructor
      · rintro ⟨right, h⟩
        obtain ⟨b, others, hfirst, hrest, rfl⟩ := List.forall₂_cons_left_iff.mp h
        exact ⟨⟨b, hfirst⟩, others, hrest⟩
      · rintro ⟨⟨b, hfirst⟩, others, hrest⟩
        exact ⟨b :: others, List.Forall₂.cons hfirst hrest⟩

theorem forall₂_imp_mem {left : List α} {right : List β}
    (himp : ∀ a ∈ left, ∀ b ∈ right, R a b → S a b) (h : List.Forall₂ R left right) :
    List.Forall₂ S left right := by
  induction h with
  | nil => exact List.Forall₂.nil
  | cons hfirst _ ih =>
      refine List.Forall₂.cons (himp _ List.mem_cons_self _ List.mem_cons_self hfirst)
        (ih fun a ha b hb => himp a (List.mem_cons_of_mem _ ha) b (List.mem_cons_of_mem _ hb))

theorem forall₂_zipIdx_imp {P : Nat → α → δ → Prop} {left right : List α} {values : List δ}
    (himp : ∀ index a b value, Q a b → P index a value → P index b value)
    (h : List.Forall₂ Q left right) (start : Nat)
    (hvalues : List.Forall₂ (fun entry value => P entry.2 entry.1 value) (left.zipIdx start)
      values) :
    List.Forall₂ (fun entry value => P entry.2 entry.1 value) (right.zipIdx start) values := by
  induction h generalizing start values with
  | nil => exact hvalues
  | cons hfirst _ ih =>
      rw [List.zipIdx_cons] at hvalues ⊢
      obtain ⟨value, rest, hvalue, hrest, rfl⟩ := List.forall₂_cons_left_iff.mp hvalues
      exact List.Forall₂.cons (himp _ _ _ _ hfirst hvalue) (ih _ hrest)

theorem forall₂_trans {T : α → γ → Prop} (htrans : ∀ a b c, R a b → U b c → T a c)
    {left : List α} {middle : List β} {right : List γ} (h : List.Forall₂ R left middle)
    (h' : List.Forall₂ U middle right) : List.Forall₂ T left right := by
  induction h generalizing right with
  | nil =>
      cases h'
      exact List.Forall₂.nil
  | cons hfirst _ ih =>
      obtain ⟨c, others, hc, hothers, rfl⟩ := List.forall₂_cons_left_iff.mp h'
      exact List.Forall₂.cons (htrans _ _ _ hfirst hc) (ih hothers)

/-- Lists related through something between their entries are related through a list between them.
-/
theorem exists_between {left : List α} {right : List γ}
    (h : List.Forall₂ (fun a c => ∃ b, R a b ∧ U b c) left right) :
    ∃ middle, List.Forall₂ R left middle ∧ List.Forall₂ U middle right := by
  induction h with
  | nil => exact ⟨[], List.Forall₂.nil, List.Forall₂.nil⟩
  | cons hfirst _ ih =>
      obtain ⟨b, hab, hbc⟩ := hfirst
      obtain ⟨rest, hleft, hright⟩ := ih
      exact ⟨b :: rest, List.Forall₂.cons hab hleft, List.Forall₂.cons hbc hright⟩

/-- Related lists stay related when their entries are numbered. -/
theorem forall₂_zipIdx {left : List α} {right : List β} (h : List.Forall₂ R left right)
    (start : Nat) : List.Forall₂ (fun a b => R a.1 b.1 ∧ a.2 = b.2) (left.zipIdx start)
      (right.zipIdx start) := by
  induction h generalizing start with
  | nil => exact List.Forall₂.nil
  | cons hfirst _ ih => exact List.Forall₂.cons ⟨hfirst, rfl⟩ (ih (start + 1))

/-- Entries that are related through a value of their own, position by position, are related through
a list of such values. -/
theorem exists_indexed {P : Nat → β → γ → Prop} {left : List α} {right : List γ} (start : Nat)
    (h : List.Forall₂ (fun entry c => ∃ b, P entry.2 b c) (left.zipIdx start) right) :
    ∃ middle : List β,
      List.Forall₂ (fun entry c => P entry.2 entry.1 c) (middle.zipIdx start) right := by
  induction left generalizing right start with
  | nil =>
      rw [List.zipIdx_nil, List.forall₂_nil_left_iff] at h
      exact ⟨[], by rw [h]; exact List.Forall₂.nil⟩
  | cons a rest ih =>
      rw [List.zipIdx_cons, List.forall₂_cons_left_iff] at h
      obtain ⟨c, others, ⟨b, hb⟩, hrest, rfl⟩ := h
      obtain ⟨middle, hmiddle⟩ := ih (start + 1) hrest
      refine ⟨b :: middle, ?_⟩
      rw [List.zipIdx_cons]
      exact List.Forall₂.cons hb hmiddle

theorem find?_of_forall₂ {p : α → Bool} {q : β → Bool} (hpq : ∀ a b, R a b → p a = q b)
    {left : List α} {right : List β} (h : List.Forall₂ R left right) :
    Option.Rel R (left.find? p) (right.find? q) := by
  induction h with
  | nil => exact Option.Rel.none
  | @cons a b _ _ hfirst _ ih =>
      cases hp : p a with
      | true =>
          have hq : q b = true := (hpq a b hfirst).symm.trans hp
          rw [List.find?_cons_of_pos hp, List.find?_cons_of_pos hq]
          exact Option.Rel.some hfirst
      | false =>
          have hq : q b = false := (hpq a b hfirst).symm.trans hp
          rw [List.find?_cons_of_neg (by simp [hp]), List.find?_cons_of_neg (by simp [hq])]
          exact ih

/-! ### Related entry by entry, in another order -/

/-- The right list is some list that the left one is related to entry by entry, reordered. -/
def ForallPerm (R : α → β → Prop) (left : List α) (right : List β) : Prop :=
  ∃ middle, List.Forall₂ R left middle ∧ middle.Perm right

theorem ForallPerm.of_forall₂ {left : List α} {right : List β} (h : List.Forall₂ R left right) :
    ForallPerm R left right :=
  ⟨right, h, List.Perm.refl right⟩

theorem ForallPerm.of_perm (hrefl : ∀ a, Q a a) {left right : List α} (h : left.Perm right) :
    ForallPerm Q left right :=
  ⟨left, List.forall₂_same.mpr fun a _ => hrefl a, h⟩

theorem ForallPerm.trans {T : α → γ → Prop} (htrans : ∀ a b c, R a b → U b c → T a c)
    {left : List α} {middle : List β} {right : List γ} (h : ForallPerm R left middle)
    (h' : ForallPerm U middle right) : ForallPerm T left right := by
  obtain ⟨first, hfirst, hperm⟩ := h
  obtain ⟨second, hsecond, hperm'⟩ := h'
  obtain ⟨third, hthird, hperm''⟩ := List.perm_comp_forall₂ hperm hsecond
  exact ⟨third, forall₂_trans htrans hfirst hthird, hperm''.trans hperm'⟩

theorem ForallPerm.exists_left {left : List α} {right : List β} (h : ForallPerm R left right)
    {b : β} (hb : b ∈ right) : ∃ a ∈ left, R a b := by
  obtain ⟨middle, hrelated, hperm⟩ := h
  rw [← hperm.mem_iff] at hb
  clear hperm
  induction hrelated with
  | nil => exact absurd hb List.not_mem_nil
  | cons hfirst _ ih =>
      rcases List.mem_cons.mp hb with rfl | hb
      · exact ⟨_, List.mem_cons_self, hfirst⟩
      · obtain ⟨a, ha, hab⟩ := ih hb
        exact ⟨a, List.mem_cons_of_mem _ ha, hab⟩

theorem map_eq_of_forall₂ {f : α → δ} {g : β → δ} (hfg : ∀ a b, R a b → f a = g b)
    {left : List α} {right : List β} (h : List.Forall₂ R left right) :
    left.map f = right.map g := by
  induction h with
  | nil => rfl
  | cons hfirst _ ih => rw [List.map_cons, List.map_cons, hfg _ _ hfirst, ih]

/-- What related entries agree on is the same on both sides, up to order. -/
theorem ForallPerm.map_perm {f : α → δ} {g : β → δ} (hfg : ∀ a b, R a b → f a = g b)
    {left : List α} {right : List β} (h : ForallPerm R left right) :
    (left.map f).Perm (right.map g) := by
  obtain ⟨middle, hrelated, hperm⟩ := h
  rw [map_eq_of_forall₂ hfg hrelated]
  exact hperm.map g

theorem ForallPerm.imp_mem {left : List α} {right : List β}
    (himp : ∀ a ∈ left, ∀ b ∈ right, R a b → S a b) (h : ForallPerm R left right) :
    ForallPerm S left right := by
  obtain ⟨middle, hrelated, hperm⟩ := h
  exact ⟨middle, forall₂_imp_mem (fun a ha b hb => himp a ha b (hperm.mem_iff.mp hb)) hrelated,
    hperm⟩

/-- Lists whose entries have distinct keys are related up to order when entries of the same key are
related and both sides have the same keys. -/
theorem forallPerm_of_keys {f : α → γ} {g : β → γ} {left : List α} {right : List β}
    (hleft : (left.map f).Nodup) (hright : (right.map g).Nodup)
    (h : ∀ a ∈ left, ∃ b ∈ right, f a = g b ∧ R a b) (h' : ∀ b ∈ right, ∃ a ∈ left, f a = g b) :
    ForallPerm R left right := by
  obtain ⟨middle, hmiddle⟩ :=
    (exists_forall₂_iff (R := fun a b => b ∈ right ∧ f a = g b ∧ R a b)).mpr h
  refine ⟨middle, hmiddle.imp fun _ _ hpair => hpair.2.2, ?_⟩
  have hkeys : left.map f = middle.map g := map_eq_of_forall₂ (fun _ _ hpair => hpair.2.1) hmiddle
  have hsubset : ∀ b ∈ middle, b ∈ right := by
    intro b hb
    obtain ⟨a, -, hpair⟩ := (ForallPerm.of_forall₂ hmiddle).exists_left hb
    exact hpair.1
  have hnodup : middle.Nodup := List.Nodup.of_map g (hkeys ▸ hleft)
  apply (List.perm_ext_iff_of_nodup hnodup (List.Nodup.of_map g hright)).mpr
  intro b
  constructor
  · exact hsubset b
  · intro hb
    obtain ⟨a, ha, hkey⟩ := h' b hb
    have hmem : g b ∈ middle.map g := by
      rw [← hkeys, ← hkey]
      exact List.mem_map_of_mem ha
    obtain ⟨b', hb', hsame⟩ := List.mem_map.mp hmem
    rwa [← List.inj_on_of_nodup_map hright (hsubset b' hb') hb hsame]

/-- Values that belong to the entries of a list follow the entries into another order. -/
theorem exists_forall₂_of_perm {f : α → γ} {left right : List α} (hperm : left.Perm right)
    {values : List β} (h : List.Forall₂ R left values) :
    ∃ others, List.Forall₂ R right others ∧
      ((left.map f).zip values).Perm ((right.map f).zip others) := by
  induction hperm generalizing values with
  | nil => exact ⟨values, h, List.Perm.refl _⟩
  | cons a _ ih =>
      obtain ⟨value, rest, hvalue, hrest, rfl⟩ := List.forall₂_cons_left_iff.mp h
      obtain ⟨others, hothers, hzip⟩ := ih hrest
      exact ⟨value :: others, List.Forall₂.cons hvalue hothers, hzip.cons _⟩
  | swap a b rest =>
      obtain ⟨first, tail, hfirst, htail, rfl⟩ := List.forall₂_cons_left_iff.mp h
      obtain ⟨second, others, hsecond, hothers, rfl⟩ := List.forall₂_cons_left_iff.mp htail
      exact ⟨second :: first :: others,
        List.Forall₂.cons hsecond (List.Forall₂.cons hfirst hothers), List.Perm.swap _ _ _⟩
  | trans _ _ ih ih' =>
      obtain ⟨middle, hmiddle, hzip⟩ := ih h
      obtain ⟨others, hothers, hzip'⟩ := ih' hmiddle
      exact ⟨others, hothers, hzip.trans hzip'⟩

end Entrywise
