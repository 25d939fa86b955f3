import PkgsourceYaml.RecipeFields
import PkgsourceYaml.Library.Unsequenced

/-!
# The recipe entry point

`parse_recipe_yaml` ends in one call whose arguments C++ evaluates in an unspecified order, so the
order is a parameter here.
-/

namespace PkgsourceYaml

/-- The arguments of the `recipe_declaration` call that compute something. The other two, the
lifecycle programs and the check program, are moved from locals. -/
inductive RecipeArgument where
  | release
  | metadata
  | sources
  | build
  | requirements
  | architectures
  | provenance
  deriving DecidableEq, Repr

def RecipeArgument.all : List RecipeArgument :=
  [.release, .metadata, .sources, .build, .requirements, .architectures, .provenance]

/-- One order of evaluating the arguments: each of them, once. -/
structure EvaluationOrder where
  arguments : List RecipeArgument
  perm : arguments.Perm RecipeArgument.all

theorem EvaluationOrder.complete (order : EvaluationOrder) (argument : RecipeArgument) :
    argument ∈ order.arguments := by
  rw [order.perm.mem_iff]
  cases argument <;> decide

def EvaluationOrder.textual : EvaluationOrder := ⟨RecipeArgument.all, List.Perm.refl _⟩

variable (core : Core) (context : Context)

def RecipeArgument.Value : RecipeArgument → Type
  | .release => core.PackageRelease
  | .metadata => core.PackageMetadata
  | .sources => List core.SourceInput
  | .build => core.Program
  | .requirements => List core.RequirementDeclaration
  | .architectures => core.ArchitectureRequirements
  | .provenance => core.DeclarationProvenance

/-- The sections of a recipe root that the last call of `parse_recipe_yaml` decodes. -/
structure RecipeSections where
  root : Node
  package : Node
  requirements : Node
  sources : Node
  build : Node

def RecipeArgument.evaluate (sections : RecipeSections) :
    (argument : RecipeArgument) → Except Exception (argument.Value core)
  | .release => packageReleaseValue core context sections.package
  | .metadata => packageMetadataValue core context sections.package
  | .sources => sourcesValue core context sections.sources (ascii "sources")
  | .build => programValue core context sections.build (ascii "build")
  | .requirements =>
      requirementsValue core context sections.requirements (ascii "requirements")
  | .architectures => do
      let architectures ← findKey context sections.root (ascii "architectures")
      architecturesValue core context architectures
  | .provenance =>
      propagate (PkgsourceYaml.provenance core context (ascii "document") sections.root)

def recipeDeclarationCall (order : EvaluationOrder) (sections : RecipeSections)
    (lifecycle : List core.LifecycleProgram) (check : Option core.Program) :
    Except Exception core.RecipeDeclaration :=
  Unsequenced.call (RecipeArgument.evaluate core context sections) order.arguments order.complete
    fun value =>
      propagate (core.recipeDeclaration (value .release) (value .metadata) (value .sources)
        (value .build) (value .requirements) lifecycle (value .architectures) (value .provenance)
        check)

def checkValue (root : Node) : Except Exception (Option core.Program) := do
  match ← findKey context root (ascii "check") with
  | none => pure none
  | some value => do
      let program ← programValue core context value (ascii "check")
      pure (some program)

def lifecyclePrograms (root : Node) : Except Exception (List core.LifecycleProgram) := do
  match ← findKey context root (ascii "lifecycle") with
  | none => pure []
  | some value => lifecycleValue core context value (ascii "lifecycle")

/-- `parse_recipe_yaml` after `parse_document`, up to the call that builds the result: the sections
that call decodes, and the two locals it moves from. -/
def recipeSections (root : Node) :
    Except Exception (RecipeSections × List core.LifecycleProgram × Option core.Program) := do
  allowKeys context root (ascii "$")
    [ascii "format", ascii "package", ascii "requirements", ascii "sources", ascii "build",
      ascii "check", ascii "lifecycle", ascii "architectures"]
  requireFormat context root (ascii "zeppe-lin.recipe/1")
  let package ← requiredKey context root (ascii "package") (ascii "$")
  let package ← requireKind context package .mapping (ascii "package") (ascii "package")
  let requirements ← requiredKey context root (ascii "requirements") (ascii "$")
  let sources ← requiredKey context root (ascii "sources") (ascii "$")
  let build ← requiredKey context root (ascii "build") (ascii "$")
  let check ← checkValue core context root
  let lifecycle ← lifecyclePrograms core context root
  pure (⟨root, package, requirements, sources, build⟩, lifecycle, check)

/-- The recipe grammar: `parse_recipe_yaml` on the tree `parse_document` returned. -/
def recipeValue (order : EvaluationOrder) (root : Node) :
    Except Exception core.RecipeDeclaration := do
  let (sections, lifecycle, check) ← recipeSections core context root
  recipeDeclarationCall core context order sections lifecycle check

def parseRecipeYaml (order : EvaluationOrder) (input : Input) (limits : ParseLimits) :
    Except Exception core.RecipeDeclaration := do
  let root ← documentOutcome input context.origin limits
  recipeValue core context order root

end PkgsourceYaml
