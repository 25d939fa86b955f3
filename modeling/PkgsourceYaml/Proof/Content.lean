import PkgsourceYaml.Identification
import PkgsourceYaml.Proof.Twins
import PkgsourceYaml.Proof.Document
import PkgsourceYaml.Proof.Agreement
import PkgsourceYaml.Library.Blocks

/-!
# Trees of the same content

When two trees are the same after forgetting marks and the order of pairs: scalars of one text,
sequences of the same items, and mappings that have the same content under every key.
-/

namespace PkgsourceYaml

open Pairing Entrywise

/-! ### Congruence -/

/-- Reordering inside the children of a node reorders the node. -/
theorem permuted_children {kind : NodeKind} {mark : SourceMark} {text : Bytes}
    {children children' : List Node} (h : List.Forall₂ Permuted children children') :
    Permuted ⟨kind, mark, text, children⟩ ⟨kind, mark, text, children'⟩ := by
  suffices hbefore : ∀ before, Permuted ⟨kind, mark, text, before ++ children⟩
      ⟨kind, mark, text, before ++ children'⟩ from hbefore []
  induction h with
  | nil => exact fun before => Permuted.refl _
  | @cons child child' rest rest' hchild _ ih =>
      intro before
      have hfirst : Permuted ⟨kind, mark, text, before ++ child :: rest⟩
          ⟨kind, mark, text, before ++ child' :: rest⟩ := by
        induction hchild with
        | refl => exact Permuted.refl _
        | tail _ hstep ih => exact ih.tail (.inside hstep)
      have hrest := ih (before ++ [child'])
      simp only [List.append_assoc, List.singleton_append] at hrest
      exact hfirst.trans hrest

theorem sameContent_children {kind : NodeKind} {mark mark' : SourceMark} {text : Bytes}
    {children children' : List Node} (h : List.Forall₂ Node.SameContent children children') :
    Node.SameContent ⟨kind, mark, text, children⟩ ⟨kind, mark', text, children'⟩ := by
  obtain ⟨middle, hpermuted, halike⟩ := exists_between h
  exact ⟨⟨kind, mark, text, middle⟩, permuted_children hpermuted, .intro trivial halike⟩

/-- Pairs of the same content, in whatever order, make mappings of the same content. -/
theorem sameContent_unpairs {mark mark' : SourceMark} {text : Bytes}
    {list list' : List (Node × Node)}
    (h : ForallPerm (fun pair pair' => pair.1.SameContent pair'.1 ∧ pair.2.SameContent pair'.2)
      list list') :
    Node.SameContent ⟨.mapping, mark, text, unpairs list⟩
      ⟨.mapping, mark', text, unpairs list'⟩ := by
  obtain ⟨last, hpairs, hperm⟩ := h
  -- first reorder inside the pairs, then the pairs themselves, and forget the marks at the end
  have hbetween : List.Forall₂ (fun pair pair' => ∃ middle, PermutedPair pair middle ∧
      middle.1.Alike (fun _ _ => True) pair'.1 ∧ middle.2.Alike (fun _ _ => True) pair'.2)
      list last := by
    refine hpairs.imp fun pair pair' hpair => ?_
    obtain ⟨⟨key, hkey, hkeyAlike⟩, value, hvalue, hvalueAlike⟩ := hpair
    exact ⟨(key, value), ⟨hkey, hvalue⟩, hkeyAlike, hvalueAlike⟩
  obtain ⟨middle, hpermuted, halike⟩ := exists_between hbetween
  obtain ⟨reordered, hreordered, hmiddle⟩ :=
    List.perm_comp_forall₂ hperm.symm (List.Forall₂.flip halike)
  refine ⟨⟨.mapping, mark, text, unpairs reordered⟩, ?_, .intro trivial ?_⟩
  · have hinside : Permuted ⟨.mapping, mark, text, unpairs list⟩
        ⟨.mapping, mark, text, unpairs middle⟩ := permuted_children (forall₂_unpairs hpermuted)
    exact hinside.trans (Relation.ReflTransGen.single (.here hmiddle.symm))
  · exact forall₂_unpairs (List.Forall₂.flip hreordered)

/-! ### Trees that were read -/

/-- A tree as `parse_document` returns it. -/
structure Node.Formed (node : Node) : Prop where
  valid : node.Valid
  shaped : ∀ inner ∈ node.nodes, inner.Shaped

theorem formed_of_documentOutcome {input : Input} {origin : SourceOrigin} {limits : ParseLimits}
    {root : Node} (h : documentOutcome input origin limits = .ok root) : root.Formed := by
  refine ⟨valid_of_documentOutcome h, ?_⟩
  obtain ⟨-, document, hstrict, -, hroot⟩ := documentOutcome_eq_ok_iff_strict.mp h
  rw [← hroot]
  exact shaped_of_spelled hstrict.toSpelledDocument

section

variable {node node' : Node}

theorem Node.Formed.self (h : node.Formed) : node.Shaped := h.shaped node node.self_mem_nodes

theorem Node.Formed.child {child : Node} (h : node.Formed) (hkind : node.kind ≠ .scalar)
    (hchild : child ∈ node.children) : child.Formed :=
  ⟨h.valid.child hkind hchild,
    fun inner hinner => h.shaped inner (Node.mem_nodes_of_child hchild hinner)⟩

/-- Every node of a tree that was read is such a tree: below a scalar there is nothing. -/
theorem Node.Formed.inner {inner : Node} (h : node.Formed) (hinner : inner ∈ node.nodes) :
    inner.Formed := by
  induction node using Node.induction with
  | step node ih =>
      rw [Node.nodes_eq, List.mem_cons, List.mem_flatMap] at hinner
      rcases hinner with rfl | ⟨child, hchild, hinner⟩
      · exact h
      · have hkind : node.kind ≠ .scalar := by
          intro hscalar
          rw [h.self.leaf hscalar] at hchild
          exact absurd hchild List.not_mem_nil
        exact ih child hchild (h.child hkind hchild) hinner

theorem Node.Formed.pair {pair : Node × Node} (h : node.Formed) (hkind : node.kind = .mapping)
    (hpair : pair ∈ node.pairs) : pair.1.Formed ∧ pair.2.Formed := by
  have hmem := mem_of_mem_pairs hpair
  exact ⟨h.child (by simp [hkind]) hmem.1, h.child (by simp [hkind]) hmem.2⟩

theorem Node.Formed.field {child : Node} {key : Bytes} (h : node.Formed)
    (hfield : node.field? key = some child) : child.Formed := by
  obtain ⟨keyNode, hpair, -⟩ := Node.pair_of_field? hfield
  exact (h.pair (Node.kind_of_field? hfield) hpair).2

theorem sameContent_of_isText {text : Bytes} (h : node.Formed) (h' : node'.Formed)
    (htext : node.IsText text) (htext' : node'.IsText text) : node.SameContent node' := by
  have hleaf := h.self.leaf htext.1
  have hleaf' := h'.self.leaf htext'.1
  obtain ⟨kind, mark, scalar, children⟩ := node
  obtain ⟨kind', mark', scalar', children'⟩ := node'
  obtain ⟨rfl, rfl⟩ : kind = .scalar ∧ scalar = text := htext
  obtain ⟨rfl, rfl⟩ : kind' = .scalar ∧ scalar' = scalar := htext'
  obtain rfl : children = [] := hleaf
  obtain rfl : children' = [] := hleaf'
  exact sameContent_children List.Forall₂.nil

theorem sameContent_of_items (h : node.Formed) (h' : node'.Formed) (hkind : node.kind = .sequence)
    (hkind' : node'.kind = .sequence)
    (hitems : List.Forall₂ Node.SameContent node.children node'.children) :
    node.SameContent node' := by
  have hblank := h.self.blank (by simp [hkind])
  have hblank' := h'.self.blank (by simp [hkind'])
  obtain ⟨kind, mark, scalar, children⟩ := node
  obtain ⟨kind', mark', scalar', children'⟩ := node'
  obtain rfl : kind = .sequence := hkind
  obtain rfl : kind' = .sequence := hkind'
  obtain rfl : scalar = [] := hblank
  obtain rfl : scalar' = [] := hblank'
  exact sameContent_children hitems

theorem sameContent_of_pairs (h : node.Formed) (h' : node'.Formed) (hkind : node.kind = .mapping)
    (hkind' : node'.kind = .mapping)
    (hpairs : ForallPerm (fun pair pair' => pair.1.SameContent pair'.1 ∧ pair.2.SameContent pair'.2)
      node.pairs node'.pairs) : node.SameContent node' := by
  have hblank := h.self.blank (by simp [hkind])
  have hblank' := h'.self.blank (by simp [hkind'])
  have hpaired := unpairs_pairs (h.self.paired hkind)
  have hpaired' := unpairs_pairs (h'.self.paired hkind')
  obtain ⟨kind, mark, scalar, children⟩ := node
  obtain ⟨kind', mark', scalar', children'⟩ := node'
  obtain rfl : kind = .mapping := hkind
  obtain rfl : kind' = .mapping := hkind'
  obtain rfl : scalar = [] := hblank
  obtain rfl : scalar' = [] := hblank'
  have hsame : Node.SameContent ⟨.mapping, mark, [], unpairs (pairs children)⟩
    ⟨.mapping, mark', [], unpairs (pairs children')⟩ := sameContent_unpairs hpairs
  simp only at hpaired hpaired'
  rwa [hpaired, hpaired'] at hsame

/-- Keys with the same text are the same keys. -/
theorem sameContent_keys {pair pair' : Node × Node} (h : node.Formed) (h' : node'.Formed)
    (hkind : node.kind = .mapping) (hkind' : node'.kind = .mapping) (hpair : pair ∈ node.pairs)
    (hpair' : pair' ∈ node'.pairs) (htext : pair.1.scalar = pair'.1.scalar) :
    pair.1.SameContent pair'.1 := by
  have hscalar := (h.valid.admitted hkind).scalar pair hpair
  have hscalar' := (h'.valid.admitted hkind').scalar pair' hpair'
  exact sameContent_of_isText (h.pair hkind hpair).1 (h'.pair hkind' hpair').1 ⟨hscalar, htext⟩
    ⟨hscalar', rfl⟩

/-- Mappings that have the same content under every key have the same content. -/
theorem sameContent_of_fields (h : node.Formed) (h' : node'.Formed) (hkind : node.kind = .mapping)
    (hkind' : node'.kind = .mapping)
    (hfields : ∀ key, Option.Rel Node.SameContent (node.field? key) (node'.field? key)) :
    node.SameContent node' := by
  have hadmitted := h.valid.admitted hkind
  have hadmitted' := h'.valid.admitted hkind'
  apply sameContent_of_pairs h h' hkind hkind'
  apply forallPerm_of_keys (f := (·.1.scalar)) (g := (·.1.scalar)) hadmitted.distinct
    hadmitted'.distinct
  · intro pair hpair
    have hfield := hfields pair.1.scalar
    rw [h.valid.field?_of_pair hkind hpair] at hfield
    cases hfound : node'.field? pair.1.scalar with
    | none =>
        rw [hfound] at hfield
        cases hfield
    | some value =>
        rw [hfound] at hfield
        obtain ⟨key, hmem, hkey⟩ := Node.pair_of_field? hfound
        cases hfield with
        | some hvalue =>
            exact ⟨(key, value), hmem, hkey.symm,
              sameContent_keys h h' hkind hkind' hpair hmem hkey.symm, hvalue⟩
  · intro pair' hpair'
    have hfield := hfields pair'.1.scalar
    rw [h'.valid.field?_of_pair hkind' hpair'] at hfield
    cases hfound : node.field? pair'.1.scalar with
    | none =>
        rw [hfound] at hfield
        cases hfield
    | some value =>
        obtain ⟨key, hmem, hkey⟩ := Node.pair_of_field? hfound
        exact ⟨(key, value), hmem, hkey⟩

theorem Node.HasKeys.field?_eq_none {allowed : List Bytes} {key : Bytes}
    (h : node.HasKeys allowed) (hkey : key ∉ allowed) : node.field? key = none := by
  cases hfield : node.field? key with
  | none => rfl
  | some child =>
      obtain ⟨keyNode, hpair, rfl⟩ := Node.pair_of_field? hfield
      exact absurd (h.2 _ hpair) hkey

/-- Where only some keys are allowed, the content under these decides. -/
theorem sameContent_of_keys {allowed : List Bytes} (h : node.Formed) (h' : node'.Formed)
    (hkeys : node.HasKeys allowed) (hkeys' : node'.HasKeys allowed)
    (hfields : ∀ key ∈ allowed, Option.Rel Node.SameContent (node.field? key) (node'.field? key)) :
    node.SameContent node' := by
  apply sameContent_of_fields h h' hkeys.1 hkeys'.1
  intro key
  by_cases hkey : key ∈ allowed
  · exact hfields key hkey
  · rw [hkeys.field?_eq_none hkey, hkeys'.field?_eq_none hkey]
    exact Option.Rel.none

theorem rel_text {key text : Bytes} (h : node.Formed) (h' : node'.Formed)
    (htext : node.Text key text) (htext' : node'.Text key text) :
    Option.Rel Node.SameContent (node.field? key) (node'.field? key) := by
  obtain ⟨child, hfield, hchild⟩ := htext
  obtain ⟨child', hfield', hchild'⟩ := htext'
  rw [hfield, hfield']
  exact Option.Rel.some (sameContent_of_isText (h.field hfield) (h'.field hfield') hchild hchild')

theorem rel_none {key : Bytes} (hfield : node.field? key = none)
    (hfield' : node'.field? key = none) :
    Option.Rel Node.SameContent (node.field? key) (node'.field? key) := by
  rw [hfield, hfield']
  exact Option.Rel.none

theorem rel_some {key : Bytes} {child child' : Node} (hfield : node.field? key = some child)
    (hfield' : node'.field? key = some child') (h : child.SameContent child') :
    Option.Rel Node.SameContent (node.field? key) (node'.field? key) := by
  rw [hfield, hfield']
  exact Option.Rel.some h

/-- An optional value that reads alike on both sides, where presence shows in the value read. -/
theorem rel_optional {α : Type} {Reads Reads' : Node → α → Prop} {absent value : α} {key : Bytes}
    (h : IsOptional Reads absent (node.field? key) value)
    (h' : IsOptional Reads' absent (node'.field? key) value)
    (hpresent : ∀ child, Reads child value → value ≠ absent)
    (hpresent' : ∀ child, Reads' child value → value ≠ absent)
    (hsame : ∀ child child', node.field? key = some child → node'.field? key = some child' →
      Reads child value → Reads' child' value → child.SameContent child') :
    Option.Rel Node.SameContent (node.field? key) (node'.field? key) := by
  cases hfield : node.field? key with
  | none =>
      cases hfield' : node'.field? key with
      | none => exact Option.Rel.none
      | some child' =>
          rw [hfield] at h
          rw [hfield'] at h'
          exact absurd h (hpresent' child' h')
  | some child =>
      rw [hfield] at h
      cases hfield' : node'.field? key with
      | none =>
          rw [hfield'] at h'
          exact absurd h' (hpresent child h)
      | some child' =>
          rw [hfield'] at h'
          exact Option.Rel.some (hsame child child' hfield hfield' h h')

/-- The items of a sequence read as its values, whatever their positions. -/
theorem IsItems.children {α : Type} {Reads : Nat → Node → α → Prop} {values : List α}
    (h : IsItems Reads node values) :
    List.Forall₂ (fun child value => ∃ index, Reads index child value) node.children values := by
  rw [← List.zipIdx_map_fst 0 node.children, List.forall₂_map_left_iff]
  exact h.2.imp fun entry _ hentry => ⟨entry.2, hentry⟩

/-- Sequences whose items read alike have items of the same content. -/
theorem sameContent_of_isItems {α : Type} {Reads Reads' : Nat → Node → α → Prop} {values : List α}
    (h : node.Formed) (h' : node'.Formed) (hitems : IsItems Reads node values)
    (hitems' : IsItems Reads' node' values)
    (hsame : ∀ index index' entry entry' value, entry.Formed → entry'.Formed →
      Reads index entry value → Reads' index' entry' value → entry.SameContent entry') :
    node.SameContent node' := by
  apply sameContent_of_items h h' hitems.1 hitems'.1
  have hrelated : List.Forall₂ (fun child child' => ∃ value, (∃ index, Reads index child value) ∧
      ∃ index, Reads' index child' value) node.children node'.children :=
    forall₂_trans (fun _ value _ hleft hright => ⟨value, hleft, hright⟩) hitems.children
      (List.Forall₂.flip hitems'.children)
  refine forall₂_imp_mem ?_ hrelated
  rintro child hchild child' hchild' ⟨value, ⟨index, hread⟩, index', hread'⟩
  exact hsame index index' child child' value (h.child (by simp [hitems.1]) hchild)
    (h'.child (by simp [hitems'.1]) hchild') hread hread'

end

end PkgsourceYaml
