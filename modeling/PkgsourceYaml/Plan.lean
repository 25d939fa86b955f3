import PkgsourceYaml.Identification

/-!
# The plan of a document

What a document asks of `libpkgsource`, told without it: the values that a `libpkgsource` would have
built that accepts everything and keeps it. A plan is interpreted by making the calls it stands for.
-/

namespace PkgsourceYaml

variable (core : Core)

/-- The scope constructors of `libpkgsource` succeed. They take no part of the document, and the
parser calls them even for a sequence that has no entries. -/
def ScopesAccepted : Prop := ∀ name : ScopeName, ∃ scope, name.scope core = .ok scope

def interpretSubject (plan : Core.recording.RequirementSubject) :
    Except CoreError core.RequirementSubject :=
  match (plan : Bytes ⊕ Bytes) with
  | .inl name => core.packageSubjectOf name
  | .inr name => core.profileSubjectOf name

def interpretSite (plan : Core.recording.DeclarationProvenance) :
    Except CoreError core.DeclarationProvenance :=
  let (document, path, line, column) : RecordedSite := plan
  core.declarationProvenance document path line column

def interpretRequirement (plan : Core.recording.RequirementDeclaration) :
    Except CoreError core.RequirementDeclaration := do
  let (name, subject, site) : RecordedRequirement := plan
  let scope ← name.scope core
  let subject ← interpretSubject core subject
  let site ← interpretSite core site
  core.requirementDeclaration scope subject site

def interpretProgram (plan : Core.recording.Program) : Except CoreError core.Program :=
  let (language, material) : ProgramLanguage × Bytes := plan
  core.program language material

def interpretLifecycleProgram (plan : Core.recording.LifecycleProgram) :
    Except CoreError core.LifecycleProgram := do
  let (action, program) : LifecycleAction × Core.recording.Program := plan
  let program ← interpretProgram core program
  core.lifecycleProgram action program

def interpretArchitecture (plan : Core.recording.ArchitectureReference) :
    Except CoreError core.ArchitectureReference :=
  core.architectureReference plan

def interpretArchitectures (plan : Core.recording.ArchitectureRequirements) :
    Except CoreError core.ArchitectureRequirements := do
  let (build, target) : List Core.recording.ArchitectureReference ×
    List Core.recording.ArchitectureReference := plan
  let build ← build.mapM (interpretArchitecture core)
  let target ← target.mapM (interpretArchitecture core)
  core.architectureRequirements build target

def interpretSource (plan : Core.recording.SourceInput) : Except CoreError core.SourceInput :=
  match (plan : RecordedSource ⊕ RecordedSource) with
  | .inl (locator, name, (algorithm, hash), unpack) => do
      let content ← core.digest algorithm hash
      core.remoteSource locator name content unpack
  | .inr (locator, name, (algorithm, hash), unpack) => do
      let content ← core.digest algorithm hash
      core.localSource locator name content unpack

def interpretRelease (plan : Core.recording.PackageRelease) :
    Except CoreError core.PackageRelease :=
  let (name, version, release) : Bytes × Bytes × UInt32 := plan
  core.packageReleaseOf name version release

def interpretMetadata (plan : Core.recording.PackageMetadata) :
    Except CoreError core.PackageMetadata :=
  let (summary, description, homepage, licenses) :
    Bytes × Option Bytes × Option Bytes × List Bytes := plan
  core.packageMetadata summary description homepage licenses

def interpretCheck (plan : Option Core.recording.Program) :
    Except CoreError (Option core.Program) :=
  match plan with
  | none => pure none
  | some program => do
      let program ← interpretProgram core program
      pure (some program)

def interpretRecipe (plan : Core.recording.RecipeDeclaration) :
    Except CoreError core.RecipeDeclaration := do
  let (release, metadata, sources, build, requirements, lifecycle, architectures, site, check) :
    Core.recording.PackageRelease × Core.recording.PackageMetadata ×
      List Core.recording.SourceInput × Core.recording.Program ×
      List Core.recording.RequirementDeclaration × List Core.recording.LifecycleProgram ×
      Core.recording.ArchitectureRequirements × Core.recording.DeclarationProvenance ×
      Option Core.recording.Program := plan
  let release ← interpretRelease core release
  let metadata ← interpretMetadata core metadata
  let sources ← sources.mapM (interpretSource core)
  let build ← interpretProgram core build
  let requirements ← requirements.mapM (interpretRequirement core)
  let lifecycle ← lifecycle.mapM (interpretLifecycleProgram core)
  let architectures ← interpretArchitectures core architectures
  let site ← interpretSite core site
  let check ← interpretCheck core check
  core.recipeDeclaration release metadata sources build requirements lifecycle architectures site
    check

def interpretMember (plan : Core.recording.ProfileMemberDeclaration) :
    Except CoreError core.ProfileMemberDeclaration := do
  let (subject, site) : Core.recording.RequirementSubject ×
    Core.recording.DeclarationProvenance := plan
  let subject ← interpretSubject core subject
  let site ← interpretSite core site
  core.profileMemberDeclaration subject site

def interpretProfile (plan : Core.recording.ProfileDeclaration) :
    Except CoreError core.ProfileDeclaration := do
  let (name, site, members) : Core.recording.ProfileReference ×
    Core.recording.DeclarationProvenance × List Core.recording.ProfileMemberDeclaration := plan
  let reference ← core.profileReference name
  let site ← interpretSite core site
  let members ← members.mapM (interpretMember core)
  core.profileDeclaration reference site members

def interpretProfiles (plans : List Core.recording.ProfileDeclaration) :
    Except CoreError (List core.ProfileDeclaration) :=
  plans.mapM (interpretProfile core)

/-- Some constructor of `libpkgsource` returns this error, on some arguments. -/
inductive Core.Rejects (failed : CoreError) : Prop where
  | provenance (document path : Bytes) (line column : UInt32)
      (h : core.declarationProvenance document path line column = .error failed)
  | packageReference (name : Bytes) (h : core.packageReference name = .error failed)
  | profileReference (name : Bytes) (h : core.profileReference name = .error failed)
  | packageSubject (reference : core.PackageReference)
      (h : core.packageSubject reference = .error failed)
  | profileSubject (reference : core.ProfileReference)
      (h : core.profileSubject reference = .error failed)
  | scope (name : ScopeName) (h : name.scope core = .error failed)
  | requirement (scope : core.RequirementScope) (subject : core.RequirementSubject)
      (site : core.DeclarationProvenance)
      (h : core.requirementDeclaration scope subject site = .error failed)
  | architectureReference (name : Bytes) (h : core.architectureReference name = .error failed)
  | architectures (build target : List core.ArchitectureReference)
      (h : core.architectureRequirements build target = .error failed)
  | program (language : ProgramLanguage) (material : Bytes)
      (h : core.program language material = .error failed)
  | lifecycle (action : LifecycleAction) (program : core.Program)
      (h : core.lifecycleProgram action program = .error failed)
  | digest (algorithm : DigestAlgorithm) (hash : Bytes)
      (h : core.digest algorithm hash = .error failed)
  | remoteSource (locator name : Bytes) (content : core.Digest) (unpack : SourceUnpackKind)
      (h : core.remoteSource locator name content unpack = .error failed)
  | localSource (locator name : Bytes) (content : core.Digest) (unpack : SourceUnpackKind)
      (h : core.localSource locator name content unpack = .error failed)
  | release (reference : core.PackageReference) (version : Bytes) (release : UInt32)
      (h : core.packageRelease reference version release = .error failed)
  | metadata (summary : Bytes) (description homepage : Option Bytes) (licenses : List Bytes)
      (h : core.packageMetadata summary description homepage licenses = .error failed)
  | recipe (release : core.PackageRelease) (metadata : core.PackageMetadata)
      (sources : List core.SourceInput) (build : core.Program)
      (requirements : List core.RequirementDeclaration) (lifecycle : List core.LifecycleProgram)
      (architectures : core.ArchitectureRequirements) (site : core.DeclarationProvenance)
      (check : Option core.Program)
      (h : core.recipeDeclaration release metadata sources build requirements lifecycle
        architectures site check = .error failed)
  | member (subject : core.RequirementSubject) (site : core.DeclarationProvenance)
      (h : core.profileMemberDeclaration subject site = .error failed)
  | profile (reference : core.ProfileReference) (site : core.DeclarationProvenance)
      (members : List core.ProfileMemberDeclaration)
      (h : core.profileDeclaration reference site members = .error failed)

/-- What becomes of an error of `libpkgsource`: an invalid value with the error's own text, at some
path and mark, or, outside `semantic_value`, the error itself. -/
inductive CoreRejection (context : Context) : Exception → Prop where
  | translated (path : Bytes) (mark : SourceMark) (failed : CoreError) (h : core.Rejects failed) :
      CoreRejection context (failure .invalidValue context.origin path mark failed.what)
  | escaped (failed : CoreError) (h : core.Rejects failed) : CoreRejection context (.core failed)

end PkgsourceYaml
