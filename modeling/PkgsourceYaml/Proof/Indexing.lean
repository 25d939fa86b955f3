import PkgsourceYaml.Proof.Containment
import PkgsourceYaml.Proof.Decoding

/-!
# Key/value reads are in range

The readers of mappings check nothing themselves. The document layer hands out trees whose mappings
are lists of pairs with scalar keys, and every decoder requires the kind before it reads.
-/

namespace PkgsourceYaml

open Throwing

variable {core : Core} {context : Context} {input : Input} {limits : ParseLimits}

/-- A read outside `node::children`, of a node that is no mapping as a key/value list, or of the
text of a key that is no scalar. -/
def Exception.IsMisuse (exception : Exception) : Prop :=
  exception = .outOfRange ∨ exception = .misread

/-- What a decoder may throw on a valid tree. -/
def Exception.IsDecoded (exception : Exception) : Prop :=
  exception.IsYaml ∨ ∃ failed, exception = .core failed

theorem Exception.IsDecoded.not_misuse {exception : Exception} (h : exception.IsDecoded) :
    ¬exception.IsMisuse := by
  rcases h with ⟨_, rfl⟩ | ⟨_, rfl⟩ <;> simp [Exception.IsMisuse]

theorem Exception.Attributed.not_misuse {exception : Exception} (h : exception.Attributed input) :
    ¬exception.IsMisuse := by
  rcases h with ⟨_, rfl⟩ | ⟨_, failed, -, rfl⟩
  · simp [Exception.IsMisuse]
  · cases failed <;> simp [ProviderFailure.exception, Exception.IsMisuse]

theorem Reports.isDecoded {Leak : Exception → Prop} {schema : Schema} {node : Node} {path : Bytes}
    {α : Type} {x : Except Exception α} (h : Reports Leak context schema node path x)
    (hleak : ∀ exception, Leak exception → ∃ failed, exception = .core failed) :
    Throws x Exception.IsDecoded := by
  intro exception herror
  rcases h exception herror with ⟨_, _, _, _, -, rfl⟩ | hleaked
  · exact Or.inl (isYaml_failure _ _ _ _ _)
  · exact Or.inr (hleak exception hleaked)

theorem throws_recipeValue {order : EvaluationOrder} {root : Node} (hvalid : root.Valid) :
    Throws (recipeValue core context order root) Exception.IsDecoded :=
  (reports_recipeValue hvalid).isDecoded fun _ => RecipeLeak.exists_core

theorem throws_profilesValue {root : Node} (hvalid : root.Valid) :
    Throws (profilesValue core context root) Exception.IsDecoded :=
  (reports_profilesValue hvalid).isDecoded fun _ => ProfilesLeak.exists_core

/-- `validate_tree` is entered only with trees whose mappings are lists of pairs. -/
theorem even_of_readTree {origin : SourceOrigin} {fuel : Nat} {root : Node} {after : ParseState}
    (h : readTree input origin limits fuel {} = .ok root after) :
    ∀ node ∈ root.nodes, node.kind = .mapping → node.children.length % 2 = 0 := by
  obtain ⟨-, document, rfl, hspelled, -⟩ := readTree_sound.ok h
  exact fun node hnode => (shaped_of_spelled hspelled node hnode).paired

theorem documentOutcome_not_misuse {origin : SourceOrigin} :
    Throws (documentOutcome input origin limits) fun exception => ¬exception.IsMisuse :=
  documentOutcome_throws.mono fun _ => Exception.Attributed.not_misuse

/-! ### Checked and unchecked runs -/

theorem Node.alike_refl {Mark : SourceMark → SourceMark → Prop} (hrefl : ∀ mark, Mark mark mark)
    (node : Node) : node.Alike Mark node := by
  induction node using Node.induction with
  | step node ih =>
      obtain ⟨kind, mark, scalar, children⟩ := node
      exact .intro (hrefl mark) (List.forall₂_same.mpr ih)

/-- Two runs from one origin, compared for equality. -/
def Correspondence.equality (core : Core) (origin : SourceOrigin) (checked checked' : Bool) :
    Correspondence core ⟨origin, checked⟩ ⟨origin, checked'⟩ where
  Mark := Eq
  Failed := Eq
  Thrown := Eq
  Site := Eq
  Requirement := Eq
  Member := Eq
  Profile := Eq
  Recipe := Eq
  failed_refl _ := rfl
  failure _ _ _ _ _ hmark := by rw [hmark]
  rejection _ _ _ _ _ hmark hfailed := by rw [hmark, hfailed]
  escape _ _ hfailed := by rw [hfailed]
  site _ _ _ hmark := hmark ▸ Agrees.refl (fun _ => rfl) _
  requirement _ _ _ _ hsite := hsite ▸ Agrees.refl (fun _ => rfl) _
  member _ _ _ hsite := hsite ▸ Agrees.refl (fun _ => rfl) _
  profile _ _ _ _ _ hsite hmembers := by
    rw [List.forall₂_eq_eq_eq] at hmembers
    rw [hsite, hmembers]
    exact Agrees.refl (fun _ => rfl) _
  recipe _ _ _ _ _ _ _ _ _ _ _ hrequirements hsite := by
    rw [List.forall₂_eq_eq_eq] at hrequirements
    rw [hsite, hrequirements]
    exact Agrees.refl (fun _ => rfl) _

section

variable {origin : SourceOrigin} {checked checked' : Bool} {root : Node}

theorem Node.Valid.matched (h : root.Valid) : Matched Eq root root :=
  ⟨Node.alike_refl (fun _ => rfl) root, h, h⟩

/-- The checks of a checked run never fire, so it ends as the unchecked run does. -/
theorem parseRecipeYaml_checked (order : EvaluationOrder) (checked checked' : Bool) :
    parseRecipeYaml core ⟨origin, checked⟩ order input limits =
      parseRecipeYaml core ⟨origin, checked'⟩ order input limits := by
  have hdecode : Agrees Eq Eq (parseRecipeYaml core ⟨origin, checked⟩ order input limits)
      (parseRecipeYaml core ⟨origin, checked'⟩ order input limits) := by
    refine (Agrees.refl (fun _ => rfl) (documentOutcome input origin limits)).bind ?_
    rintro root _ hroot - rfl
    exact agrees_recipeValue (Correspondence.equality core origin checked checked')
      (valid_of_documentOutcome hroot).matched order
  exact hdecode.eq

theorem parseProfilesYaml_checked (checked checked' : Bool) :
    parseProfilesYaml core ⟨origin, checked⟩ input limits =
      parseProfilesYaml core ⟨origin, checked'⟩ input limits := by
  have hdecode : Agrees Eq Eq (parseProfilesYaml core ⟨origin, checked⟩ input limits)
      (parseProfilesYaml core ⟨origin, checked'⟩ input limits) := by
    refine (Agrees.refl (fun _ => rfl) (documentOutcome input origin limits)).bind ?_
    rintro root _ hroot - rfl
    rw [← List.forall₂_eq_eq_eq]
    exact agrees_profilesValue (Correspondence.equality core origin checked checked')
      (valid_of_documentOutcome hroot).matched
  exact hdecode.eq

end

/-- **Indexing.** On every event stream, under all limits and in every evaluation order, key
validation receives mappings of even length only, and neither it nor an entry point, checked or not,
reads outside the children of a node, reads a node that is no mapping as a key/value list, or reads
the text of a key that is no scalar. The checks themselves change no outcome. -/
theorem reads_in_range (core : Core) (context : Context) (order : EvaluationOrder) (input : Input)
    (limits : ParseLimits) :
    (∀ root after, readTree input context.origin limits (parseFuel limits) {} = .ok root after →
      ∀ node ∈ root.nodes, node.kind = .mapping → node.children.length % 2 = 0) ∧
    (Throws (documentOutcome input context.origin limits) fun exception => ¬exception.IsMisuse) ∧
    (Throws (parseRecipeYaml core context order input limits)
      fun exception => ¬exception.IsMisuse) ∧
    (Throws (parseProfilesYaml core context input limits) fun exception => ¬exception.IsMisuse) ∧
    parseRecipeYaml core ⟨context.origin, true⟩ order input limits =
      parseRecipeYaml core ⟨context.origin, false⟩ order input limits ∧
    parseProfilesYaml core ⟨context.origin, true⟩ input limits =
      parseProfilesYaml core ⟨context.origin, false⟩ input limits := by
  refine ⟨fun root after => even_of_readTree, documentOutcome_not_misuse, ?_, ?_,
    parseRecipeYaml_checked order true false, parseProfilesYaml_checked true false⟩
  · apply Throws.bind documentOutcome_not_misuse
    intro root hroot
    have hdecoded : Throws (recipeValue core context order root) Exception.IsDecoded :=
      throws_recipeValue (valid_of_documentOutcome hroot)
    exact hdecoded.mono fun _ => Exception.IsDecoded.not_misuse
  · apply Throws.bind documentOutcome_not_misuse
    intro root hroot
    have hdecoded : Throws (profilesValue core context root) Exception.IsDecoded :=
      throws_profilesValue (valid_of_documentOutcome hroot)
    exact hdecoded.mono fun _ => Exception.IsDecoded.not_misuse

end PkgsourceYaml
