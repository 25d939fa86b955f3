import Mathlib.Data.List.Forall2
import Mathlib.Data.List.Nodup

/-!
# Named blocks and their members

A list of named blocks, flattened into one list whose members carry the name of their block. The
flat list determines the blocks, except for those that are empty.
-/

namespace Blocks

variable {κ α β : Type} {R : α → β → Prop}

/-- The members of all blocks in order, each with the name of its block. -/
def tagged (blocks : List (κ × List α)) : List (κ × α) :=
  blocks.flatMap fun block => block.2.map fun member => (block.1, member)

@[simp] theorem tagged_nil : tagged ([] : List (κ × List α)) = [] := rfl

@[simp] theorem tagged_cons (block : κ × List α) (rest : List (κ × List α)) :
    tagged (block :: rest) = (block.2.map fun member => (block.1, member)) ++ tagged rest := rfl

theorem name_of_mem_tagged {blocks : List (κ × List α)} {member : κ × α}
    (h : member ∈ tagged blocks) : member.1 ∈ blocks.map Prod.fst := by
  obtain ⟨block, hblock, hmember⟩ := List.mem_flatMap.mp h
  obtain ⟨value, -, rfl⟩ := List.mem_map.mp hmember
  exact List.mem_map_of_mem hblock

/-- The blocks that have members. -/
def filled (blocks : List (κ × List α)) : List (κ × List α) :=
  blocks.filter fun block => !block.2.isEmpty

theorem tagged_filled (blocks : List (κ × List α)) : tagged (filled blocks) = tagged blocks := by
  induction blocks with
  | nil => rfl
  | cons block rest ih =>
      by_cases hempty : block.2 = []
      · have hfilled : filled (block :: rest) = filled rest :=
          List.filter_cons_of_neg (by simp [hempty])
        rw [hfilled, ih, tagged_cons, hempty]
        rfl
      · have hfilled : filled (block :: rest) = block :: filled rest :=
          List.filter_cons_of_pos (by simpa using hempty)
        rw [hfilled, tagged_cons, tagged_cons, ih]

/-- The members of the first block are those that carry its name. -/
theorem filter_tagged_cons [DecidableEq κ] {block : κ × List α} {rest : List (κ × List α)}
    (hfresh : block.1 ∉ rest.map Prod.fst) :
    (tagged (block :: rest)).filter (·.1 = block.1) =
        (block.2.map fun member => (block.1, member)) ∧
      (tagged (block :: rest)).filter (·.1 ≠ block.1) = tagged rest := by
  have hrest : ∀ member ∈ tagged rest, member.1 ≠ block.1 := by
    intro member hmember hname
    exact hfresh (hname ▸ name_of_mem_tagged hmember)
  rw [tagged_cons, List.filter_append, List.filter_append]
  constructor
  · rw [List.filter_eq_self.mpr (by simp),
      List.filter_eq_nil_iff.mpr (by simpa using hrest), List.append_nil]
  · rw [List.filter_eq_nil_iff.mpr (by simp),
      List.filter_eq_self.mpr (by simpa using hrest), List.nil_append]

/-- Blocks with members and distinct names are related when their tagged members are. -/
theorem forall₂_of_tagged_filled [DecidableEq κ] {blocks : List (κ × List α)}
    {blocks' : List (κ × List β)} (hnodup : (blocks.map Prod.fst).Nodup)
    (hnodup' : (blocks'.map Prod.fst).Nodup) (hfilled : ∀ block ∈ blocks, block.2 ≠ [])
    (hfilled' : ∀ block ∈ blocks', block.2 ≠ [])
    (h : List.Forall₂ (fun a b => a.1 = b.1 ∧ R a.2 b.2) (tagged blocks) (tagged blocks')) :
    List.Forall₂ (fun block block' => block.1 = block'.1 ∧ List.Forall₂ R block.2 block'.2) blocks
      blocks' := by
  induction blocks generalizing blocks' with
  | nil =>
      cases blocks' with
      | nil => exact List.Forall₂.nil
      | cons block' rest' =>
          have hmembers := hfilled' block' List.mem_cons_self
          rw [tagged_nil, List.forall₂_nil_left_iff, tagged_cons, List.append_eq_nil_iff,
            List.map_eq_nil_iff] at h
          exact absurd h.1 hmembers
  | cons block rest ih =>
      obtain ⟨first, members, hmembers⟩ := List.exists_cons_of_ne_nil
        (hfilled block List.mem_cons_self)
      cases blocks' with
      | nil =>
          rw [tagged_nil, List.forall₂_nil_right_iff, tagged_cons, List.append_eq_nil_iff,
            List.map_eq_nil_iff] at h
          exact absurd h.1 (hfilled block List.mem_cons_self)
      | cons block' rest' =>
          obtain ⟨first', members', hmembers'⟩ := List.exists_cons_of_ne_nil
            (hfilled' block' List.mem_cons_self)
          have hname : block.1 = block'.1 := by
            rw [tagged_cons, tagged_cons, hmembers, hmembers'] at h
            cases h with
            | cons hfirst _ => exact hfirst.1
          rw [List.map_cons, List.nodup_cons] at hnodup hnodup'
          have hleft := filter_tagged_cons hnodup.1
          have hright := filter_tagged_cons hnodup'.1
          have hsame : List.Forall₂ (fun a b => a.1 = b.1 ∧ R a.2 b.2)
              (block.2.map fun member => (block.1, member))
              (block'.2.map fun member => (block'.1, member)) := by
            rw [← hleft.1, ← hright.1]
            apply List.rel_filter ?_ h
            intro a b hab
            simp [hab.1, hname]
          have hothers : List.Forall₂ (fun a b => a.1 = b.1 ∧ R a.2 b.2) (tagged rest)
              (tagged rest') := by
            rw [← hleft.2, ← hright.2]
            apply List.rel_filter ?_ h
            intro a b hab
            simp [hab.1, hname]
          rw [List.forall₂_map_left_iff, List.forall₂_map_right_iff] at hsame
          apply List.Forall₂.cons ⟨hname, hsame.imp fun _ _ hpair => hpair.2⟩
          exact ih hnodup.2 hnodup'.2
            (fun block hblock => hfilled block (List.mem_cons_of_mem _ hblock))
            (fun block hblock => hfilled' block (List.mem_cons_of_mem _ hblock)) hothers

/-- The tagged members of blocks with distinct names determine the blocks that are not empty. -/
theorem forall₂_filled_of_tagged [DecidableEq κ] {blocks : List (κ × List α)}
    {blocks' : List (κ × List β)} (hnodup : (blocks.map Prod.fst).Nodup)
    (hnodup' : (blocks'.map Prod.fst).Nodup)
    (h : List.Forall₂ (fun a b => a.1 = b.1 ∧ R a.2 b.2) (tagged blocks) (tagged blocks')) :
    List.Forall₂ (fun block block' => block.1 = block'.1 ∧ List.Forall₂ R block.2 block'.2)
      (filled blocks) (filled blocks') := by
  rw [← tagged_filled blocks, ← tagged_filled blocks'] at h
  apply forall₂_of_tagged_filled ?_ ?_ ?_ ?_ h
  · exact hnodup.sublist (List.filter_sublist.map Prod.fst)
  · exact hnodup'.sublist (List.filter_sublist.map Prod.fst)
  · intro block hblock
    simpa using (List.mem_filter.mp hblock).2
  · intro block hblock
    simpa using (List.mem_filter.mp hblock).2

/-- What is computed block by block, and is nothing for an empty block, needs the filled ones only.
-/
theorem flatMap_filled {f : κ × List α → List β} (h : ∀ block, block.2 = [] → f block = [])
    (blocks : List (κ × List α)) : (filled blocks).flatMap f = blocks.flatMap f := by
  induction blocks with
  | nil => rfl
  | cons block rest ih =>
      by_cases hempty : block.2 = []
      · have hfilled : filled (block :: rest) = filled rest :=
          List.filter_cons_of_neg (by simp [hempty])
        rw [hfilled, ih, List.flatMap_cons, h block hempty, List.nil_append]
      · have hfilled : filled (block :: rest) = block :: filled rest :=
          List.filter_cons_of_pos (by simpa using hempty)
        rw [hfilled, List.flatMap_cons, List.flatMap_cons, ih]

/-- The tagged members tell the first block from the others. -/
theorem tagged_cons_inj [DecidableEq κ] {name : κ} {members members' : List α}
    {rest rest' : List (κ × List α)} (hfresh : name ∉ rest.map Prod.fst)
    (hfresh' : name ∉ rest'.map Prod.fst)
    (h : tagged ((name, members) :: rest) = tagged ((name, members') :: rest')) :
    members = members' ∧ tagged rest = tagged rest' := by
  obtain ⟨hmembers, hrest⟩ := @filter_tagged_cons _ _ _ (name, members) rest hfresh
  obtain ⟨hmembers', hrest'⟩ := @filter_tagged_cons _ _ _ (name, members') rest' hfresh'
  rw [h] at hmembers hrest
  refine ⟨?_, hrest.symm.trans hrest'⟩
  refine List.map_injective_iff.mpr (fun _ _ hpair => ?_) (hmembers.symm.trans hmembers')
  exact (Prod.mk.inj hpair).2

/-- Blocks with members and distinct names are determined by their tagged members. -/
theorem eq_of_tagged_filled [DecidableEq κ] {blocks blocks' : List (κ × List α)}
    (hnodup : (blocks.map Prod.fst).Nodup) (hnodup' : (blocks'.map Prod.fst).Nodup)
    (hfilled : ∀ block ∈ blocks, block.2 ≠ []) (hfilled' : ∀ block ∈ blocks', block.2 ≠ [])
    (h : tagged blocks = tagged blocks') : blocks = blocks' := by
  have hmembers : List.Forall₂ (fun a b : κ × α => a.1 = b.1 ∧ a.2 = b.2) (tagged blocks)
      (tagged blocks') := by
    rw [h]
    exact List.forall₂_same.mpr fun _ _ => ⟨rfl, rfl⟩
  have hblocks := forall₂_of_tagged_filled hnodup hnodup' hfilled hfilled' hmembers
  rw [← List.forall₂_eq_eq_eq]
  refine hblocks.imp fun block block' hblock => Prod.ext hblock.1 ?_
  rw [← List.forall₂_eq_eq_eq]
  exact hblock.2

end Blocks
