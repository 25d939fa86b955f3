import PkgsourceYaml.Grammar
import Mathlib.Logic.Relation

/-!
# Documents whose mappings are in another order

What it means that two trees differ only in the order of the pairs of their mappings, and what the
values read from them then have in common.
-/

namespace PkgsourceYaml

open Pairing

/-- The pairs of one mapping of the tree, at some depth, are put in another order. -/
inductive Shuffles : Node → Node → Prop where
  | here {mark : SourceMark} {text : Bytes} {list list' : List (Node × Node)}
      (h : list.Perm list') :
      Shuffles ⟨.mapping, mark, text, unpairs list⟩ ⟨.mapping, mark, text, unpairs list'⟩
  | inside {kind : NodeKind} {mark : SourceMark} {text : Bytes} {before after : List Node}
      {child child' : Node} (h : Shuffles child child') :
      Shuffles ⟨kind, mark, text, before ++ child :: after⟩
        ⟨kind, mark, text, before ++ child' :: after⟩

/-- The pairs of any mappings of the tree, at any depth, are put in another order. -/
def Permuted : Node → Node → Prop := Relation.ReflTransGen Shuffles

def keysUnder (found : Option Node) : List Bytes :=
  found.elim [] fun node => node.pairs.map (·.1.scalar)

/-- One value for each key on either side, and each key keeps its value. -/
structure Rearranged {α : Type} (keys keys' : List Bytes) (values values' : List α) : Prop where
  left : keys.length = values.length
  right : keys'.length = values'.length
  perm : (keys.zip values).Perm (keys'.zip values')

/-- The fields of two recipes are the same, except that the lifecycle programs and the groups of
lifecycle requirements follow the order of their mappings. -/
structure SameRecipe (core : Core) (root root' : Node) (fields fields' : RecipeFields core) :
    Prop where
  rest : fields' =
    { fields with
      lifecycle := fields'.lifecycle
      requirements := { fields.requirements with lifecycle := fields'.requirements.lifecycle } }
  lifecycle : Rearranged (keysUnder (root.field? (ascii "lifecycle")))
    (keysUnder (root'.field? (ascii "lifecycle"))) fields.lifecycle fields'.lifecycle
  groups : ∃ node node', root.field? (ascii "requirements") = some node ∧
    root'.field? (ascii "requirements") = some node' ∧
    Rearranged (keysUnder (node.field? (ascii "lifecycle")))
      (keysUnder (node'.field? (ascii "lifecycle"))) fields.requirements.lifecycle
      fields'.requirements.lifecycle

/-- `recipe_declaration` accepts requirements and lifecycle programs in one order when it accepts
them in another. -/
def OrderBlind (core : Core) : Prop :=
  ∀ release metadata sources build requirements requirements' lifecycle lifecycle' architectures
    site check, List.Perm requirements requirements' → List.Perm lifecycle lifecycle' →
    (∃ declaration, core.recipeDeclaration release metadata sources build requirements lifecycle
      architectures site check = .ok declaration) →
    ∃ declaration, core.recipeDeclaration release metadata sources build requirements' lifecycle'
      architectures site check = .ok declaration

end PkgsourceYaml
