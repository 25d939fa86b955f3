import PkgsourceYaml.Tree

/-!
# Looking things up in a valid tree

The vocabulary the grammars are stated in: the value under a key, the keys a mapping may have, and
the text under a key. Where the keys of a mapping are distinct, none of it depends on their order.
-/

namespace PkgsourceYaml

open Pairing

def Node.field? (node : Node) (key : Bytes) : Option Node :=
  if node.kind = .mapping then (node.pairs.find? (·.1.scalar = key)).map Prod.snd else none

def Node.HasKeys (node : Node) (allowed : List Bytes) : Prop :=
  node.kind = .mapping ∧ ∀ pair ∈ node.pairs, pair.1.scalar ∈ allowed

def Node.IsText (node : Node) (text : Bytes) : Prop :=
  node.kind = .scalar ∧ node.scalar = text

def Node.Text (node : Node) (key text : Bytes) : Prop :=
  ∃ child, node.field? key = some child ∧ child.IsText text

/-! ### Parts of valid trees -/

theorem Node.Valid.item {node item : Node} (h : node.Valid) (hkind : node.kind = .sequence)
    (hitem : item ∈ node.children) : item.Valid := by
  cases h with
  | scalar => cases hkind
  | sequence items => exact items item hitem
  | mapping => cases hkind

theorem Node.Valid.even {node : Node} (h : node.Valid) (hkind : node.kind = .mapping) :
    node.children.length % 2 = 0 := by
  cases h with
  | scalar => cases hkind
  | sequence => cases hkind
  | mapping paired => exact paired

theorem Node.Valid.admitted {node : Node} (h : node.Valid) (hkind : node.kind = .mapping) :
    node.KeysAdmitted := by
  cases h with
  | scalar => cases hkind
  | sequence => cases hkind
  | mapping _ keys => exact keys

theorem Node.Valid.pair {node : Node} {pair : Node × Node} (h : node.Valid)
    (hkind : node.kind = .mapping) (hpair : pair ∈ node.pairs) : pair.2.Valid := by
  cases h with
  | scalar => cases hkind
  | sequence => cases hkind
  | mapping _ _ values => exact values pair hpair

theorem Node.field?_eq {node : Node} (hkind : node.kind = .mapping) (key : Bytes) :
    node.field? key = (node.pairs.find? (·.1.scalar = key)).map Prod.snd :=
  if_pos hkind

theorem Node.kind_of_field? {node child : Node} {key : Bytes} (h : node.field? key = some child) :
    node.kind = .mapping := by
  by_contra hkind
  rw [Node.field?, if_neg hkind] at h
  cases h

theorem Node.pair_of_field? {node child : Node} {key : Bytes} (h : node.field? key = some child) :
    ∃ keyNode, (keyNode, child) ∈ node.pairs ∧ keyNode.scalar = key := by
  rw [Node.field?_eq (Node.kind_of_field? h), Option.map_eq_some_iff] at h
  obtain ⟨⟨keyNode, value⟩, hfind, rfl⟩ := h
  exact ⟨keyNode, List.mem_of_find?_eq_some hfind, by simpa using List.find?_some hfind⟩

theorem Node.Valid.field {node child : Node} {key : Bytes} (h : node.Valid)
    (hfield : node.field? key = some child) : child.Valid := by
  obtain ⟨keyNode, hpair, -⟩ := Node.pair_of_field? hfield
  exact h.pair (Node.kind_of_field? hfield) hpair

/-- Distinct keys make the lookup a relation: the order of the pairs does not matter. -/
theorem Node.KeysAdmitted.field?_eq_some_iff {node child : Node} {key : Bytes}
    (h : node.KeysAdmitted) (hkind : node.kind = .mapping) :
    node.field? key = some child ↔
      ∃ keyNode, (keyNode, child) ∈ node.pairs ∧ keyNode.scalar = key := by
  refine ⟨Node.pair_of_field?, ?_⟩
  rintro ⟨keyNode, hpair, rfl⟩
  have hdistinct := h.distinct
  rw [Node.field?_eq hkind]
  generalize node.pairs = list at hpair hdistinct
  induction list with
  | nil => exact absurd hpair List.not_mem_nil
  | cons first rest ih =>
      rw [List.map_cons, List.nodup_cons] at hdistinct
      rcases List.mem_cons.mp hpair with rfl | hrest
      · simp
      · have hne : first.1.scalar ≠ keyNode.scalar := by
          intro heq
          exact hdistinct.1 (List.mem_map.mpr ⟨_, hrest, heq.symm⟩)
        rw [List.find?_cons_of_neg (by simpa using hne)]
        exact ih hrest hdistinct.2

theorem Node.Valid.field?_of_pair {node : Node} {pair : Node × Node} (h : node.Valid)
    (hkind : node.kind = .mapping) (hpair : pair ∈ node.pairs) :
    node.field? pair.1.scalar = some pair.2 :=
  ((h.admitted hkind).field?_eq_some_iff hkind).mpr ⟨pair.1, hpair, rfl⟩

end PkgsourceYaml
