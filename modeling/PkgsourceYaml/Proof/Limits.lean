import PkgsourceYaml.Recipe
import PkgsourceYaml.Profiles
import PkgsourceYaml.Proof.Document
import PkgsourceYaml.Proof.Envelope

/-!
# Limits

Lowering a limit can only turn an outcome into `resource_limit`, and it does so exactly when the
limit falls below what the document takes.
-/

namespace PkgsourceYaml

open Throwing

variable {input : Input} {origin : SourceOrigin} {limits wider : ParseLimits}

def ResourceLimited {α : Type} (outcome : Except Exception α) : Prop :=
  ∃ exception, outcome = .error exception ∧ exception.IsResourceLimit

def Restricts {α : Type} (left right : Except Exception α) : Prop :=
  left = right ∨ ResourceLimited left

theorem Restricts.bind {α β : Type} {left right : Except Exception α}
    (h : Restricts left right) (f : α → Except Exception β) :
    Restricts (left >>= f) (right >>= f) := by
  rcases h with rfl | ⟨exception, rfl, hlimit⟩
  · exact Or.inl rfl
  · exact Or.inr ⟨exception, rfl, hlimit⟩

theorem Restricts.limited {α : Type} {left right : Except Exception α}
    (h : Restricts left right) (hright : ResourceLimited right) : ResourceLimited left := by
  rcases h with rfl | hleft
  · exact hright
  · exact hleft

/-- `parse_document` under lower limits restricts `parse_document` under wider ones. -/
theorem restricts_documentOutcome (hlimits : limits.Below wider) :
    Restricts (documentOutcome input origin limits) (documentOutcome input origin wider) := by
  have hfollows : Follows limits wider (parseDocument input origin limits)
      (parseDocument input origin wider) {} := follows_parseDocument hlimits {}
  have hgivesUp : ∀ exception after,
      parseDocument input origin limits {} = .error exception after →
      GivesUp limits wider exception → exception.IsResourceLimit := by
    intro exception after herror hgives
    rcases hgives with hfuel | ⟨-, hlimit⟩
    · exact absurd hfuel (runDocument_bounded.error herror).1.ne_fuel
    · exact hlimit
  unfold documentOutcome runDocument
  cases hwider : parseDocument input origin wider {} with
  | ok root after =>
      rcases hfollows.of_ok hwider with ⟨root, _, hlow, rfl, -⟩ | ⟨exception, _, hlow, hgives⟩
      · rw [hlow]
        exact Or.inl rfl
      · rw [hlow]
        exact Or.inr ⟨exception, rfl, hgivesUp exception _ hlow hgives⟩
  | error exception after =>
      obtain ⟨found, _, hlow, hgives | ⟨rfl, -⟩⟩ := hfollows.of_error hwider
      · rw [hlow]
        exact Or.inr ⟨found, rfl, hgivesUp found _ hlow hgives⟩
      · rw [hlow]
        exact Or.inl rfl

structure Covers (limits : ParseLimits) (input : Input) (root : Node) : Prop where
  documentBytes : input.byteLength ≤ limits.maximumDocumentBytes
  scalarBytes : root.longestScalar ≤ limits.maximumScalarBytes
  nodes : root.nodeCount ≤ limits.maximumNodes
  depth : root.depth ≤ limits.maximumDepth

theorem longestScalar_le_iff {root : Node} {bound : Nat} :
    root.longestScalar ≤ bound ↔ ∀ node ∈ root.nodes, node.scalar.length ≤ bound := by
  unfold Node.longestScalar
  induction root.nodes with
  | nil => simp
  | cons node rest ih =>
      rw [List.map_cons, List.foldr_cons, Nat.max_le, ih, List.forall_mem_cons]

/-- The scalars of a spelled tree are the values of its scalar events, and the rest of its nodes
have none. -/
theorem longestScalar_toNode_le_iff {tree : EventTree} {bound : Nat} :
    tree.toNode.longestScalar ≤ bound ↔
      ∀ subtree ∈ tree.subtrees, subtree.toNode.scalar.length ≤ bound := by
  rw [longestScalar_le_iff, EventTree.nodes_toNode]
  exact List.forall_mem_map

theorem scalar_toNode_le_iff {tree : EventTree} {bound : Nat} (hbracketed : tree.Bracketed) :
    tree.toNode.scalar.length ≤ bound ↔
      (tree.kind = .scalar → tree.first.value.length ≤ bound) := by
  cases tree with
  | scalar event => simp [EventTree.toNode, EventTree.kind, EventTree.first]
  | collection kind first children last =>
      have hkind : kind ≠ .scalar := by
        rcases hbracketed with ⟨rfl, -⟩ | ⟨rfl, -⟩ <;> decide
      rw [EventTree.toNode_collection]
      simp [EventTree.kind, hkind]

/-- A strict document under some limits is one under exactly the limits that cover it. -/
theorem strict_iff_covers {document : DocumentEvents} (hstrict : StrictDocument limits document)
    (bound : ParseLimits) :
    (input.byteLength ≤ bound.maximumDocumentBytes ∧ StrictDocument bound document) ↔
      Covers bound input document.root.toNode := by
  have hcount : document.root.toNode.nodeCount = document.root.subtrees.length := by
    rw [Node.nodeCount, EventTree.nodes_toNode, List.length_map]
  constructor
  · rintro ⟨hbytes, hbound⟩
    refine ⟨hbytes, longestScalar_toNode_le_iff.mpr fun tree htree => ?_, hcount ▸ hbound.nodes,
      hbound.depth⟩
    exact (scalar_toNode_le_iff (hbound.bracketed tree htree)).mpr (hbound.scalars tree htree)
  · intro hcovers
    refine ⟨hcovers.documentBytes, { hstrict with
      nodes := hcount ▸ hcovers.nodes, depth := hcovers.depth, scalars := fun tree htree => ?_ }⟩
    exact (scalar_toNode_le_iff (hstrict.bracketed tree htree)).mp
      (longestScalar_toNode_le_iff.mp hcovers.scalarBytes tree htree)

def ParseLimits.join (left right : ParseLimits) : ParseLimits where
  maximumDocumentBytes := max left.maximumDocumentBytes right.maximumDocumentBytes
  maximumScalarBytes := max left.maximumScalarBytes right.maximumScalarBytes
  maximumNodes := max left.maximumNodes right.maximumNodes
  maximumDepth := max left.maximumDepth right.maximumDepth

theorem below_join_left (left right : ParseLimits) : left.Below (left.join right) :=
  ⟨Nat.le_max_left _ _, Nat.le_max_left _ _, Nat.le_max_left _ _, Nat.le_max_left _ _⟩

theorem below_join_right (left right : ParseLimits) : right.Below (left.join right) :=
  ⟨Nat.le_max_right _ _, Nat.le_max_right _ _, Nat.le_max_right _ _, Nat.le_max_right _ _⟩

/-- A document accepted under some limits is accepted under those that cover it, with the same tree,
and exceeds a limit under the others. -/
theorem documentOutcome_of_accepted {root : Node}
    (haccepted : documentOutcome input origin wider = .ok root) (limits : ParseLimits) :
    (Covers limits input root → documentOutcome input origin limits = .ok root) ∧
      (¬Covers limits input root → ResourceLimited (documentOutcome input origin limits)) := by
  obtain ⟨hbytes, document, hstrict, hyields, rfl⟩ := documentOutcome_eq_ok_iff_strict.mp haccepted
  constructor
  · intro hcovers
    obtain ⟨hwithin, hdocument⟩ := (strict_iff_covers hstrict limits).mpr hcovers
    exact documentOutcome_eq_ok_iff_strict.mpr ⟨hwithin, document, hdocument, hyields, rfl⟩
  · intro hcovers
    -- both runs restrict the run under the join, which returns the same tree
    have hjoin : documentOutcome input origin (limits.join wider) =
        .ok document.root.toNode := by
      have hcoversJoin : Covers (limits.join wider) input document.root.toNode := by
        have hcoversWider := (strict_iff_covers hstrict wider).mp ⟨hbytes, hstrict⟩
        have hbelow := below_join_right limits wider
        exact ⟨Nat.le_trans hcoversWider.documentBytes hbelow.documentBytes,
          Nat.le_trans hcoversWider.scalarBytes hbelow.scalarBytes,
          Nat.le_trans hcoversWider.nodes hbelow.nodes,
          Nat.le_trans hcoversWider.depth hbelow.depth⟩
      obtain ⟨hwithin, hdocument⟩ := (strict_iff_covers hstrict _).mpr hcoversJoin
      exact documentOutcome_eq_ok_iff_strict.mpr ⟨hwithin, document, hdocument, hyields, rfl⟩
    rcases @restricts_documentOutcome input origin _ _ (below_join_left limits wider) with
      hsame | hlimited
    · rw [hjoin] at hsame
      obtain ⟨hlow, other, hother, hotherYields, htree⟩ :=
        documentOutcome_eq_ok_iff_strict.mp hsame
      exact absurd (htree ▸ (strict_iff_covers hother limits).mp ⟨hlow, hother⟩) hcovers
    · exact hlimited

/-- An entry point, as far as limits go: a grammar over the tree that `parse_document` returns. -/
theorem outcome_of_accepted {α : Type} (grammar : Node → Except Exception α) {result : α}
    (haccepted : (documentOutcome input origin wider >>= grammar) = .ok result) :
    ∃ root, documentOutcome input origin wider = .ok root ∧ ∀ limits,
      (Covers limits input root →
        (documentOutcome input origin limits >>= grammar) = .ok result) ∧
      (¬Covers limits input root →
        ResourceLimited (documentOutcome input origin limits >>= grammar)) := by
  obtain ⟨root, hroot, hresult⟩ := bind_eq_ok.mp haccepted
  refine ⟨root, hroot, fun limits => ⟨fun hcovers => ?_, fun hcovers => ?_⟩⟩
  · exact bind_eq_ok.mpr ⟨root, (documentOutcome_of_accepted hroot limits).1 hcovers, hresult⟩
  · obtain ⟨exception, herror, hlimit⟩ := (documentOutcome_of_accepted hroot limits).2 hcovers
    exact ⟨exception, bind_eq_error.mpr (Or.inl herror), hlimit⟩

/-- What limits do to an entry point on one input: lower ones restrict the outcome of wider ones,
and an accepted document stays accepted under exactly those that cover it. -/
structure LimitsOnlyRestrict {α : Type} (parse : ParseLimits → Except Exception α) (input : Input)
    (origin : SourceOrigin) : Prop where
  restricts : ∀ limits wider, limits.Below wider → Restricts (parse limits) (parse wider) ∧
    (ResourceLimited (parse wider) → ResourceLimited (parse limits))
  ceilings : ∀ accepting result, parse accepting = .ok result →
    ∃ root, documentOutcome input origin accepting = .ok root ∧ ∀ limits,
      (parse limits = .ok result ↔ Covers limits input root) ∧
      (¬Covers limits input root → ResourceLimited (parse limits))

theorem limitsOnlyRestrict_bind {α : Type} (input : Input) (origin : SourceOrigin)
    (grammar : Node → Except Exception α) :
    LimitsOnlyRestrict (fun limits => documentOutcome input origin limits >>= grammar) input
      origin := by
  refine ⟨fun limits wider hlimits => ?_, fun accepting result haccepted => ?_⟩
  · have hrestricts := (@restricts_documentOutcome input origin _ _ hlimits).bind grammar
    exact ⟨hrestricts, hrestricts.limited⟩
  · obtain ⟨root, hroot, houtcome⟩ := outcome_of_accepted grammar haccepted
    refine ⟨root, hroot, fun limits => ⟨⟨fun hok => ?_, (houtcome limits).1⟩, (houtcome limits).2⟩⟩
    by_contra hcovers
    obtain ⟨exception, herror, -⟩ := (houtcome limits).2 hcovers
    rw [hok] at herror
    cases herror

/-- **Limits only restrict.** For both entry points and every input, lower limits leave the outcome
as it is or turn it into `resource_limit`, at the inclusive ceilings the document reaches. -/
theorem limits_only_restrict (core : Core) (context : Context) (order : EvaluationOrder)
    (input : Input) :
    LimitsOnlyRestrict (parseRecipeYaml core context order input) input context.origin ∧
      LimitsOnlyRestrict (parseProfilesYaml core context input) input context.origin :=
  ⟨limitsOnlyRestrict_bind input context.origin (recipeValue core context order),
    limitsOnlyRestrict_bind input context.origin (profilesValue core context)⟩

end PkgsourceYaml
