import PkgsourceYaml.Tree
import PkgsourceYaml.Library.Throwing

/-!
# Key validation

`validate_tree` accepts a tree exactly when every mapping it comes to has admitted keys.
-/

namespace PkgsourceYaml

open Throwing Pairing

variable {origin : SourceOrigin}

def Node.Clean (root : Node) : Prop :=
  ∀ node ∈ root.nodes, node.kind = .mapping → node.KeysAdmitted

theorem Node.clean_iff (node : Node) :
    node.Clean ↔
      (node.kind = .mapping → node.KeysAdmitted) ∧ ∀ child ∈ node.children, child.Clean :=
  Node.forall_nodes_iff node

/-- In a well-shaped tree, key validation comes to every mapping. -/
theorem Node.valid_iff_clean {node : Node} (hshaped : ∀ inner ∈ node.nodes, inner.Shaped) :
    node.Valid ↔ node.Clean := by
  induction node using Node.induction with
  | step node ih =>
      obtain ⟨hself, hchildren⟩ := (Node.forall_nodes_iff node).mp hshaped
      have hchild : ∀ child ∈ node.children, (child.Valid ↔ child.Clean) :=
        fun child h => ih child h (hchildren child h)
      rw [Node.clean_iff]
      constructor
      · intro h
        cases h with
        | scalar =>
            have hleaf := hself.leaf rfl
            simp only at hleaf
            subst hleaf
            exact ⟨by simp, by simp⟩
        | sequence items =>
            exact ⟨by simp, fun child h => (hchild child h).mp (items child h)⟩
        | mapping paired keys values =>
            refine ⟨fun _ => keys, fun child h => ?_⟩
            obtain ⟨pair, hpair, rfl | rfl⟩ := exists_mem_pairs paired h
            · obtain ⟨⟨kind, mark, text, children⟩, value⟩ := pair
              obtain rfl : kind = .scalar := keys.scalar _ hpair
              exact (hchild _ h).mp .scalar
            · exact (hchild _ h).mp (values pair hpair)
      · rintro ⟨hkeys, hclean⟩
        obtain ⟨kind, mark, text, children⟩ := node
        cases kind with
        | scalar => exact .scalar
        | sequence => exact .sequence fun item h => (hchild item h).mpr (hclean item h)
        | mapping =>
            refine .mapping (hself.paired rfl) (hkeys rfl) fun pair hpair => ?_
            have hmem := (mem_of_mem_pairs hpair).2
            exact (hchild pair.2 hmem).mpr (hclean pair.2 hmem)

/-- What the loop over the pairs of a mapping checks, once `keys` have been seen. -/
structure PairsAdmitted (children : List Node) (keys : List Bytes) : Prop where
  each : ∀ pair ∈ pairs children, pair.1.kind = .scalar ∧ pair.1.scalar ≠ ascii "<<" ∧
    pair.1.scalar ∉ keys ∧ pair.2.Valid
  distinct : ((pairs children).map (·.1.scalar)).Nodup

theorem pairsAdmitted_nil (keys : List Bytes) : PairsAdmitted [] keys :=
  ⟨fun _ h => absurd h List.not_mem_nil, List.nodup_nil⟩

/-- One turn of the loop: the key is checked and joins the seen keys, then the rest follows. -/
theorem pairsAdmitted_cons_iff {key child : Node} {rest : List Node} {keys : List Bytes} :
    PairsAdmitted (key :: child :: rest) keys ↔
      (key.kind = .scalar ∧ key.scalar ≠ ascii "<<" ∧ key.scalar ∉ keys ∧ child.Valid) ∧
        PairsAdmitted rest (key.scalar :: keys) := by
  constructor
  · rintro ⟨heach, hdistinct⟩
    rw [pairs_cons_cons, List.map_cons, List.nodup_cons] at hdistinct
    refine ⟨heach (key, child) (by simp), fun pair hpair => ?_, hdistinct.2⟩
    obtain ⟨hkind, hmerge, hfresh, hvalue⟩ := heach pair (by simp [hpair])
    refine ⟨hkind, hmerge, ?_, hvalue⟩
    rw [List.mem_cons, not_or]
    exact ⟨fun heq => hdistinct.1 (List.mem_map.mpr ⟨pair, hpair, heq⟩), hfresh⟩
  · rintro ⟨hfirst, heach, hdistinct⟩
    refine ⟨fun pair hpair => ?_, ?_⟩
    · rcases List.mem_cons.mp hpair with rfl | hpair
      · exact hfirst
      · obtain ⟨hkind, hmerge, hfresh, hvalue⟩ := heach pair hpair
        exact ⟨hkind, hmerge, fun h => hfresh (List.mem_cons_of_mem _ h), hvalue⟩
    · rw [pairs_cons_cons, List.map_cons, List.nodup_cons]
      refine ⟨fun h => ?_, hdistinct⟩
      obtain ⟨pair, hpair, heq⟩ := List.mem_map.mp h
      exact (heach pair hpair).2.2.1 (heq ▸ List.mem_cons_self)

/-- The loop of a whole mapping admits its keys and accepts its values. -/
theorem pairsAdmitted_children_iff {mark : SourceMark} {text : Bytes} {children : List Node} :
    (children.length % 2 = 0 ∧ PairsAdmitted children []) ↔
      Node.Valid ⟨.mapping, mark, text, children⟩ := by
  constructor
  · rintro ⟨heven, heach, hdistinct⟩
    exact .mapping heven
      ⟨fun pair h => (heach pair h).1, fun pair h => (heach pair h).2.1, hdistinct⟩
      fun pair h => (heach pair h).2.2.2
  · intro h
    cases h with
    | mapping paired keys values =>
        exact ⟨paired, fun pair hpair => ⟨keys.scalar pair hpair, keys.noMerge pair hpair,
          List.not_mem_nil, values pair hpair⟩, keys.distinct⟩

theorem validate_iff :
    (∀ (node : Node) (path : Bytes), validateTree origin node path = .ok () ↔ node.Valid) ∧
    (∀ (children : List Node) (path : Bytes) (keys : List Bytes),
      validatePairs origin children path keys = .ok () ↔
        children.length % 2 = 0 ∧ PairsAdmitted children keys) ∧
    ∀ (items : List Node) (path : Bytes) (index : Nat),
      validateItems origin items path index = .ok () ↔ ∀ item ∈ items, item.Valid := by
  apply validateTree.mutual_induct
  · intro mark scalar children path
    simp only [validateTree, pure_eq_ok, true_iff]
    exact .scalar
  · intro mark scalar children path ih
    rw [validateTree, ih]
    exact ⟨.sequence, fun h => by cases h with | sequence items => exact items⟩
  · intro mark scalar children path ih
    rw [validateTree, ih]
    exact pairsAdmitted_children_iff
  · intro path keys
    simp only [validatePairs, pure_eq_ok, true_iff]
    exact ⟨rfl, pairsAdmitted_nil keys⟩
  · intro last path keys
    simp [validatePairs, throw_eq_ok]
  · intro key child rest path keys hkind
    rw [validatePairs, if_pos hkind, throw_eq_ok, pairsAdmitted_cons_iff, false_iff]
    exact fun h => hkind h.2.1.1
  · intro key child rest path keys hkind hmerge
    rw [validatePairs, if_neg hkind, if_pos hmerge, throw_eq_ok, pairsAdmitted_cons_iff, false_iff]
    exact fun h => h.2.1.2.1 hmerge
  · intro key child rest path keys hkind hmerge hseen
    rw [validatePairs, if_neg hkind, if_neg hmerge, if_pos hseen, throw_eq_ok,
      pairsAdmitted_cons_iff, false_iff]
    exact fun h => h.2.1.2.2.1 hseen
  · intro key child rest path keys hkind hmerge hseen ihChild ihRest
    have hparity : (key :: child :: rest).length % 2 = 0 ↔ rest.length % 2 = 0 := by
      simp only [List.length_cons]
      omega
    rw [validatePairs, if_neg hkind, if_neg hmerge, if_neg hseen, bind_eq_ok,
      pairsAdmitted_cons_iff, hparity]
    constructor
    · rintro ⟨_, hvalue, hloop⟩
      obtain ⟨heven, hrest⟩ := ihRest.mp hloop
      exact ⟨heven, ⟨not_not.mp hkind, hmerge, hseen, ihChild.mp hvalue⟩, hrest⟩
    · rintro ⟨heven, ⟨-, -, -, hvalue⟩, hrest⟩
      exact ⟨(), ihChild.mpr hvalue, ihRest.mpr ⟨heven, hrest⟩⟩
  · intro path index
    simp [validateItems, pure_eq_ok]
  · intro item rest path index ihItem ihRest
    rw [validateItems, bind_eq_ok, List.forall_mem_cons, ← ihItem, ← ihRest]
    constructor
    · rintro ⟨_, hfirst, hothers⟩
      exact ⟨hfirst, hothers⟩
    · rintro ⟨hfirst, hothers⟩
      exact ⟨(), hfirst, hothers⟩

/-- `validate_tree` accepts exactly the valid trees, whatever the path it is called with. -/
theorem validateTree_eq_ok_iff {node : Node} {path : Bytes} :
    validateTree origin node path = .ok () ↔ node.Valid :=
  validate_iff.1 node path

end PkgsourceYaml
