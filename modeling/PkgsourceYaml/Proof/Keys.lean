import PkgsourceYaml.Keys
import PkgsourceYaml.Tree
import PkgsourceYaml.Library.Throwing

/-!
# The earliest key violation

The pass over the tree interleaves the check of a key, its entry into the seen set and the recursion
into its value. It comes to the same end as one walk over the key occurrences in document order.
-/

namespace PkgsourceYaml

open Throwing

variable {origin : SourceOrigin}

/-- Walk over occurrences and report the first violation. -/
def reportFirst (origin : SourceOrigin) : List KeyOccurrence → Except Exception Unit
  | [] => pure ()
  | occurrence :: rest =>
      if occurrence.IsViolation then throw (occurrence.report origin) else reportFirst origin rest

theorem reportFirst_append (left right : List KeyOccurrence) :
    reportFirst origin (left ++ right) =
      (reportFirst origin left >>= fun _ => reportFirst origin right) := by
  induction left with
  | nil => rfl
  | cons occurrence rest ih =>
      rw [List.cons_append, reportFirst, reportFirst, ih]
      by_cases hviolation : occurrence.IsViolation
      · rw [if_pos hviolation, if_pos hviolation]
        rfl
      · rw [if_neg hviolation, if_neg hviolation]

theorem reportFirst_eq_ok_iff {occurrences : List KeyOccurrence} :
    reportFirst origin occurrences = .ok () ↔
      ∀ occurrence ∈ occurrences, ¬occurrence.IsViolation := by
  induction occurrences with
  | nil => simp [reportFirst, pure_eq_ok]
  | cons occurrence rest ih => rw [reportFirst, ite_throw_eq_ok, ih, List.forall_mem_cons]

theorem reportFirst_eq_error_iff {occurrences : List KeyOccurrence} {exception : Exception} :
    reportFirst origin occurrences = .error exception ↔
      ∃ before occurrence after, occurrences = before ++ occurrence :: after ∧
        (∀ other ∈ before, ¬other.IsViolation) ∧ occurrence.IsViolation ∧
        exception = occurrence.report origin := by
  constructor
  · intro h
    induction occurrences with
    | nil => exact (pure_eq_error.mp h).elim
    | cons first rest ih =>
        rw [reportFirst] at h
        by_cases hviolation : first.IsViolation
        · rw [if_pos hviolation] at h
          exact ⟨[], first, rest, rfl, fun _ hother => absurd hother List.not_mem_nil, hviolation,
            (throw_eq_error.mp h).symm⟩
        · rw [if_neg hviolation] at h
          obtain ⟨before, occurrence, after, rfl, hbefore, hfound⟩ := ih h
          exact ⟨first :: before, occurrence, after, rfl,
            List.forall_mem_cons.mpr ⟨hviolation, hbefore⟩, hfound⟩
  · rintro ⟨before, occurrence, after, rfl, hbefore, hviolation, rfl⟩
    rw [reportFirst_append, bind_of_ok (reportFirst_eq_ok_iff.mpr hbefore), reportFirst,
      if_pos hviolation]
    rfl

/-- One turn of the loop over the pairs checks the key as the walk does. -/
theorem reportFirst_key {path : Bytes} {earlier : List Node} {key : Node} {seen : List Bytes}
    {rest : List KeyOccurrence}
    (hseen : ∀ scalar, scalar ∈ seen ↔ ∃ node ∈ earlier, node.scalar = scalar) :
    reportFirst origin (⟨path, earlier, key⟩ :: rest) =
      if key.kind ≠ .scalar then
        throw (failure .invalidType origin path key.mark (ascii "mapping keys must be scalars"))
      else if key.scalar = ascii "<<" then
        throw (failure .unsupportedFeature origin path key.mark
          (ascii "YAML merge keys are not supported"))
      else if key.scalar ∈ seen then
        throw (failure .duplicateKey origin (childPath path key.scalar) key.mark
          (ascii "duplicate mapping key: " ++ key.scalar))
      else reportFirst origin rest := by
  let occurrence : KeyOccurrence := ⟨path, earlier, key⟩
  have hrepeats : occurrence.Repeats ↔ key.scalar ∈ seen := (hseen key.scalar).symm
  rw [reportFirst, KeyOccurrence.report]
  by_cases hkind : key.kind ≠ .scalar
  · have hcomplex : occurrence.Complex := hkind
    have hviolation : occurrence.IsViolation := Or.inl hcomplex
    rw [if_pos hviolation, if_pos hcomplex, if_pos hkind]
  have hplain : ¬occurrence.Complex := hkind
  by_cases hmerge : key.scalar = ascii "<<"
  · have hmerges : occurrence.Merges := hmerge
    have hviolation : occurrence.IsViolation := Or.inr (Or.inl hmerges)
    rw [if_pos hviolation, if_neg hplain, if_pos hmerges, if_neg hkind, if_pos hmerge]
  have hnoMerge : ¬occurrence.Merges := hmerge
  by_cases hold : key.scalar ∈ seen
  · have hviolation : occurrence.IsViolation := Or.inr (Or.inr (hrepeats.mpr hold))
    rw [if_pos hviolation, if_neg hplain, if_neg hnoMerge, if_neg hkind, if_neg hmerge, if_pos hold]
  · have hclean : ¬occurrence.IsViolation :=
      not_or.mpr ⟨hplain, not_or.mpr ⟨hnoMerge, fun h => hold (hrepeats.mp h)⟩⟩
    rw [if_neg hclean, if_neg hkind, if_neg hmerge, if_neg hold]

/-- Every mapping of the tree has a value for each key. -/
def Node.Paired (node : Node) : Prop :=
  ∀ inner ∈ node.nodes, inner.kind = .mapping → inner.children.length % 2 = 0

theorem Node.Paired.child {node child : Node} (h : node.Paired) (hchild : child ∈ node.children) :
    child.Paired :=
  fun inner hinner => h inner (Node.mem_nodes_of_child hchild hinner)

theorem validate_reports :
    (∀ (node : Node) (path : Bytes), node.Paired →
      validateTree origin node path = reportFirst origin (node.keyOccurrences path)) ∧
    (∀ (children : List Node) (path : Bytes) (seen : List Bytes), ∀ earlier : List Node,
      children.length % 2 = 0 → (∀ child ∈ children, child.Paired) →
      (∀ scalar, scalar ∈ seen ↔ ∃ node ∈ earlier, node.scalar = scalar) →
      validatePairs origin children path seen =
        reportFirst origin (pairOccurrences children path earlier)) ∧
    ∀ (items : List Node) (path : Bytes) (index : Nat), (∀ item ∈ items, item.Paired) →
      validateItems origin items path index =
        reportFirst origin (itemOccurrences items path index) := by
  apply validateTree.mutual_induct
  · intro mark scalar children path _
    rfl
  · intro mark scalar children path ih hpaired
    rw [validateTree, Node.keyOccurrences, ih fun item hitem => hpaired.child hitem]
  · intro mark scalar children path ih hpaired
    rw [validateTree, Node.keyOccurrences]
    exact ih [] (hpaired _ (Node.self_mem_nodes _) rfl) (fun child hchild => hpaired.child hchild)
      (by simp)
  · intro path seen earlier _ _ _
    rfl
  · intro last path seen earlier heven _ _
    simp at heven
  · intro key child rest path seen hkind earlier _ _ hseen
    rw [validatePairs, pairOccurrences, reportFirst_key hseen, if_pos hkind, if_pos hkind]
  · intro key child rest path seen hkind hmerge earlier _ _ hseen
    rw [validatePairs, pairOccurrences, reportFirst_key hseen]
    simp only [if_neg hkind, if_pos hmerge]
  · intro key child rest path seen hkind hmerge hrepeats earlier _ _ hseen
    rw [validatePairs, pairOccurrences, reportFirst_key hseen]
    simp only [if_neg hkind, if_neg hmerge, if_pos hrepeats]
  · intro key child rest path seen hkind hmerge hfresh ihChild ihRest earlier heven hpaired hseen
    have hrest : rest.length % 2 = 0 := by
      simp only [List.length_cons] at heven
      omega
    have hothers : ∀ other ∈ rest, other.Paired := fun other hother =>
      hpaired other (List.mem_cons_of_mem _ (List.mem_cons_of_mem _ hother))
    -- the key joins the seen set and the keys before the rest alike
    have hgrown : ∀ scalar, scalar ∈ key.scalar :: seen ↔
        ∃ node ∈ earlier ++ [key], node.scalar = scalar := by
      intro scalar
      rw [List.mem_cons, hseen]
      constructor
      · rintro (rfl | ⟨node, hnode, rfl⟩)
        · exact ⟨key, by simp, rfl⟩
        · exact ⟨node, by simp [hnode], rfl⟩
      · rintro ⟨node, hnode, rfl⟩
        rcases List.mem_append.mp hnode with hnode | hnode
        · exact Or.inr ⟨node, hnode, rfl⟩
        · exact Or.inl (congrArg Node.scalar (List.mem_singleton.mp hnode))
    rw [validatePairs, pairOccurrences, reportFirst_key hseen, reportFirst_append,
      ← ihChild (hpaired child (by simp)), ← ihRest (earlier ++ [key]) hrest hothers hgrown]
  · intro path index _
    rfl
  · intro item rest path index ihItem ihRest hpaired
    rw [validateItems, itemOccurrences, reportFirst_append, ← ihItem (hpaired item (by simp)),
      ← ihRest fun other hother => hpaired other (List.mem_cons_of_mem item hother)]

/-- **Key admission.** On a tree whose mappings are lists of pairs, `validate_tree` succeeds exactly
when no key occurrence is a violation, and otherwise reports the violation that comes first in
document order. -/
theorem validateTree_reports_first (origin : SourceOrigin) (root : Node) (path : Bytes)
    (hpaired : root.Paired) :
    (validateTree origin root path = .ok () ↔
      ∀ occurrence ∈ root.keyOccurrences path, ¬occurrence.IsViolation) ∧
    ∀ exception, validateTree origin root path = .error exception ↔
      ∃ before occurrence after, root.keyOccurrences path = before ++ occurrence :: after ∧
        (∀ other ∈ before, ¬other.IsViolation) ∧ occurrence.IsViolation ∧
        exception = occurrence.report origin := by
  rw [validate_reports.1 root path hpaired]
  exact ⟨reportFirst_eq_ok_iff, fun exception => reportFirst_eq_error_iff⟩

/-- A merge key below the first of two equal keys. -/
def mergeBeforeRepeat : Node :=
  (EventTree.fields
    [("a", .fields [("<<", .text "x")]), ("a", .text "y")]).toNode

theorem validateTree_reports_first_merge :
    validateTree ⟨ascii "recipe.yaml"⟩ mergeBeforeRepeat (ascii "$") =
      .error (failure .unsupportedFeature ⟨ascii "recipe.yaml"⟩ (ascii "a") ⟨1, 1⟩
        (ascii "YAML merge keys are not supported")) :=
  ((validateTree_reports_first ⟨ascii "recipe.yaml"⟩ mergeBeforeRepeat (ascii "$")
    (by unfold Node.Paired; decide)).2 _).mpr
      ⟨[⟨ascii "$", [], (EventTree.text "a").toNode⟩],
        ⟨ascii "a", [], (EventTree.text "<<").toNode⟩,
        [⟨ascii "$", [(EventTree.text "a").toNode], (EventTree.text "a").toNode⟩], rfl, by decide,
        by decide, by decide⟩

end PkgsourceYaml
