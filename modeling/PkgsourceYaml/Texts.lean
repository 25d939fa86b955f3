import PkgsourceYaml.Plan

/-!
# The texts of a document and of its plan

A tree holds one text for each of its scalars. A plan holds the texts it was built from: the labels
and paths of its sites, and the names of its scopes, are not among them.
-/

namespace PkgsourceYaml

/-- The scalars of a tree, keys included, in document order. -/
def Node.texts (node : Node) : List Bytes :=
  (node.nodes.filter fun inner => inner.kind = .scalar).map Node.scalar

def subjectText (plan : Core.recording.RequirementSubject) : Bytes :=
  match (plan : Bytes ⊕ Bytes) with
  | .inl name => name
  | .inr name => name

def requirementText (plan : Core.recording.RequirementDeclaration) : Bytes :=
  let (_, subject, _) : RecordedRequirement := plan
  subjectText subject

def programText (plan : Core.recording.Program) : Bytes :=
  let (_, material) : ProgramLanguage × Bytes := plan
  material

def lifecycleTexts (plan : Core.recording.LifecycleProgram) : List Bytes :=
  let (action, program) : LifecycleAction × Core.recording.Program := plan
  [action.name, programText program]

def architectureTexts (plan : Core.recording.ArchitectureRequirements) : List Bytes :=
  let (build, target) : List Bytes × List Bytes := plan
  build ++ target

def sourceTexts (plan : Core.recording.SourceInput) : List Bytes :=
  match (plan : RecordedSource ⊕ RecordedSource) with
  | .inl (locator, name, (_, hash), _) => [name, hash, locator]
  | .inr (locator, name, (_, hash), _) => [name, hash, locator]

def releaseTexts (plan : Core.recording.PackageRelease) : List Bytes :=
  let (name, version, release) : Bytes × Bytes × UInt32 := plan
  [name, version, decimal release.toNat]

def metadataTexts (plan : Core.recording.PackageMetadata) : List Bytes :=
  let (summary, description, homepage, licenses) :
    Bytes × Option Bytes × Option Bytes × List Bytes := plan
  summary :: (description.toList ++ homepage.toList ++ licenses)

def checkTexts (plan : Option Core.recording.Program) : List Bytes :=
  plan.toList.map programText

def recipeTexts (plan : Core.recording.RecipeDeclaration) : List Bytes :=
  let (release, metadata, sources, build, requirements, lifecycle, architectures, _, check) :
    Core.recording.PackageRelease × Core.recording.PackageMetadata ×
      List Core.recording.SourceInput × Core.recording.Program ×
      List Core.recording.RequirementDeclaration × List Core.recording.LifecycleProgram ×
      Core.recording.ArchitectureRequirements × Core.recording.DeclarationProvenance ×
      Option Core.recording.Program := plan
  releaseTexts release ++ metadataTexts metadata ++ sources.flatMap sourceTexts ++
    [programText build] ++ requirements.map requirementText ++ lifecycle.flatMap lifecycleTexts ++
    architectureTexts architectures ++ checkTexts check

def memberText (plan : Core.recording.ProfileMemberDeclaration) : Bytes :=
  let (subject, _) : Core.recording.RequirementSubject × Core.recording.DeclarationProvenance :=
    plan
  subjectText subject

/-- The name of a profile without its `@`, and those of its members. -/
def profileTexts (plan : Core.recording.ProfileDeclaration) : List Bytes :=
  let (reference, _, members) : Core.recording.ProfileReference ×
    Core.recording.DeclarationProvenance × List Core.recording.ProfileMemberDeclaration := plan
  List.drop 1 (reference : Bytes) :: members.map memberText

def profilesTexts (plans : List Core.recording.ProfileDeclaration) : List Bytes :=
  plans.flatMap profileTexts

/-- The texts are those of different scalars of the tree, and keep within the ceilings: at most one
for each node, none longer than a scalar. -/
structure Drawn (limits : ParseLimits) (root : Node) (texts : List Bytes) : Prop where
  once : texts.Subperm root.texts
  count : texts.length ≤ limits.maximumNodes
  each : ∀ text ∈ texts, text.length ≤ limits.maximumScalarBytes

end PkgsourceYaml
