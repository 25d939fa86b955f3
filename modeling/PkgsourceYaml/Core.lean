import PkgsourceYaml.Failure

/-!
# The libpkgsource boundary

The parser builds values of `libpkgsource`, which is no part of this repository. Its value types and
constructors are a parameter of the model: every constructor is an arbitrary function that returns a
value or a `pkgsource::error`.
-/

namespace PkgsourceYaml

inductive LifecycleAction where
  | preInstall
  | postInstall
  | preRemove
  | postRemove
  deriving DecidableEq, Repr

inductive ProgramLanguage where
  | posixShell
  deriving DecidableEq, Repr

inductive DigestAlgorithm where
  | sha256
  deriving DecidableEq, Repr

inductive SourceUnpackKind where
  | none
  | archive
  deriving DecidableEq, Repr

/-- The value types of `libpkgsource` the parser handles, and the constructors it calls. -/
structure Core where
  DeclarationProvenance : Type
  PackageReference : Type
  ProfileReference : Type
  RequirementSubject : Type
  RequirementScope : Type
  RequirementDeclaration : Type
  ArchitectureReference : Type
  ArchitectureRequirements : Type
  Program : Type
  LifecycleProgram : Type
  Digest : Type
  SourceInput : Type
  PackageRelease : Type
  PackageMetadata : Type
  RecipeDeclaration : Type
  ProfileMemberDeclaration : Type
  ProfileDeclaration : Type
  declarationProvenance (document path : Bytes) (line column : UInt32) :
    Except CoreError DeclarationProvenance
  packageReference (name : Bytes) : Except CoreError PackageReference
  profileReference (name : Bytes) : Except CoreError ProfileReference
  packageSubject (reference : PackageReference) : Except CoreError RequirementSubject
  profileSubject (reference : ProfileReference) : Except CoreError RequirementSubject
  buildScope : Except CoreError RequirementScope
  runScope : Except CoreError RequirementScope
  checkScope : Except CoreError RequirementScope
  lifecycleScope (action : LifecycleAction) : Except CoreError RequirementScope
  requirementDeclaration (scope : RequirementScope) (subject : RequirementSubject)
    (provenance : DeclarationProvenance) : Except CoreError RequirementDeclaration
  architectureReference (name : Bytes) : Except CoreError ArchitectureReference
  architectureRequirements (build target : List ArchitectureReference) :
    Except CoreError ArchitectureRequirements
  program (language : ProgramLanguage) (material : Bytes) : Except CoreError Program
  lifecycleProgram (action : LifecycleAction) (program : Program) :
    Except CoreError LifecycleProgram
  digest (algorithm : DigestAlgorithm) (hash : Bytes) : Except CoreError Digest
  remoteSource (locator name : Bytes) (content : Digest) (unpack : SourceUnpackKind) :
    Except CoreError SourceInput
  localSource (locator name : Bytes) (content : Digest) (unpack : SourceUnpackKind) :
    Except CoreError SourceInput
  packageRelease (reference : PackageReference) (version : Bytes) (release : UInt32) :
    Except CoreError PackageRelease
  packageMetadata (summary : Bytes) (description homepage : Option Bytes)
    (licenses : List Bytes) : Except CoreError PackageMetadata
  recipeDeclaration (release : PackageRelease) (metadata : PackageMetadata)
    (sources : List SourceInput) (build : Program) (requirements : List RequirementDeclaration)
    (lifecycle : List LifecycleProgram) (architectures : ArchitectureRequirements)
    (provenance : DeclarationProvenance) (check : Option Program) :
    Except CoreError RecipeDeclaration
  profileMemberDeclaration (subject : RequirementSubject) (provenance : DeclarationProvenance) :
    Except CoreError ProfileMemberDeclaration
  profileDeclaration (reference : ProfileReference) (provenance : DeclarationProvenance)
    (members : List ProfileMemberDeclaration) : Except CoreError ProfileDeclaration

/-- A `libpkgsource` that accepts everything and tells nothing apart. -/
def Core.permissive : Core where
  DeclarationProvenance := Unit
  PackageReference := Unit
  ProfileReference := Unit
  RequirementSubject := Unit
  RequirementScope := Unit
  RequirementDeclaration := Unit
  ArchitectureReference := Unit
  ArchitectureRequirements := Unit
  Program := Unit
  LifecycleProgram := Unit
  Digest := Unit
  SourceInput := Unit
  PackageRelease := Unit
  PackageMetadata := Unit
  RecipeDeclaration := Unit
  ProfileMemberDeclaration := Unit
  ProfileDeclaration := Unit
  declarationProvenance _ _ _ _ := .ok ()
  packageReference _ := .ok ()
  profileReference _ := .ok ()
  packageSubject _ := .ok ()
  profileSubject _ := .ok ()
  buildScope := .ok ()
  runScope := .ok ()
  checkScope := .ok ()
  lifecycleScope _ := .ok ()
  requirementDeclaration _ _ _ := .ok ()
  architectureReference _ := .ok ()
  architectureRequirements _ _ := .ok ()
  program _ _ := .ok ()
  lifecycleProgram _ _ := .ok ()
  digest _ _ := .ok ()
  remoteSource _ _ _ _ := .ok ()
  localSource _ _ _ _ := .ok ()
  packageRelease _ _ _ := .ok ()
  packageMetadata _ _ _ _ := .ok ()
  recipeDeclaration _ _ _ _ _ _ _ _ _ := .ok ()
  profileMemberDeclaration _ _ := .ok ()
  profileDeclaration _ _ _ := .ok ()

namespace Core

variable (core : Core)

/-- `requirement_subject(package_reference(name))` -/
def packageSubjectOf (name : Bytes) : Except CoreError core.RequirementSubject := do
  let reference ← core.packageReference name
  core.packageSubject reference

/-- `requirement_subject(profile_reference(name))` -/
def profileSubjectOf (name : Bytes) : Except CoreError core.RequirementSubject := do
  let reference ← core.profileReference name
  core.profileSubject reference

/-- `package_release(package_reference(name), version, release)` -/
def packageReleaseOf (name version : Bytes) (release : UInt32) :
    Except CoreError core.PackageRelease := do
  let reference ← core.packageReference name
  core.packageRelease reference version release

end Core

/-- A `libpkgsource` call outside `semantic_value`: its error leaves the parser as it is. -/
def propagate {α : Type} : Except CoreError α → Except Exception α
  | .ok a => .ok a
  | .error failed => .error (.core failed)

end PkgsourceYaml
