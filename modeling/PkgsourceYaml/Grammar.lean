import PkgsourceYaml.Lookup
import PkgsourceYaml.RecipeFields
import Mathlib.Data.List.Forall2

/-!
# The two grammars

What a valid tree has to look like to be a `zeppe-lin.recipe/1` or a `zeppe-lin.profiles/1`
document, and what it then means. Each relation reads one part of a tree into one value; nothing in
them says in which order the parts are looked at, or what is reported when a part is wrong.
-/

namespace PkgsourceYaml

/-- A sequence, each of whose entries reads as one value, in order. -/
def IsItems {α : Type} (Reads : Nat → Node → α → Prop) (node : Node) (values : List α) : Prop :=
  node.kind = .sequence ∧
    List.Forall₂ (fun entry value => Reads entry.2 entry.1 value) node.children.zipIdx values

/-- A mapping, each of whose key/value pairs reads as one value, in order. -/
def IsEntries {α : Type} (Reads : Node → Node → α → Prop) (node : Node) (values : List α) : Prop :=
  node.kind = .mapping ∧
    List.Forall₂ (fun pair value => Reads pair.1 pair.2 value) node.pairs values

/-- What is under an optional key, or the value that stands for its absence. -/
def IsOptional {α : Type} (Reads : Node → α → Prop) (absent : α) (found : Option Node)
    (value : α) : Prop :=
  match found with
  | none => value = absent
  | some child => Reads child value

/-- The canonical decimal of a positive 32-bit number. -/
def CanonicalRelease (text : Bytes) (release : UInt32) : Prop :=
  release ≠ 0 ∧ text = decimal release.toNat

def LifecycleAction.name : LifecycleAction → Bytes
  | .preInstall => ascii "pre-install"
  | .postInstall => ascii "post-install"
  | .preRemove => ascii "pre-remove"
  | .postRemove => ascii "post-remove"

def subjectKeys : List Bytes := [ascii "package", ascii "profile"]

def programKeys : List Bytes := [ascii "language", ascii "script"]

def requirementKeys : List Bytes := [ascii "build", ascii "run", ascii "check", ascii "lifecycle"]

def architectureKeys : List Bytes := [ascii "build", ascii "target"]

def sourceKeys : List Bytes :=
  [ascii "url", ascii "path", ascii "name", ascii "unpack", ascii "sha256"]

def packageKeys : List Bytes :=
  [ascii "name", ascii "version", ascii "release", ascii "summary", ascii "description",
    ascii "homepage", ascii "licenses"]

def recipeKeys : List Bytes :=
  [ascii "format", ascii "package", ascii "requirements", ascii "sources", ascii "build",
    ascii "check", ascii "lifecycle", ascii "architectures"]

variable (core : Core) (context : Context)

/-- Exactly one of a package name and a profile name, which `libpkgsource` accepts. -/
inductive IsSubject (node : Node) (subject : core.RequirementSubject) : Prop where
  | package (name : Bytes) (keys : node.HasKeys subjectKeys)
      (package : node.Text (ascii "package") name) (profile : node.field? (ascii "profile") = none)
      (accepted : core.packageSubjectOf name = .ok subject)
  | profile (name : Bytes) (keys : node.HasKeys subjectKeys)
      (package : node.field? (ascii "package") = none) (profile : node.Text (ascii "profile") name)
      (accepted : core.profileSubjectOf name = .ok subject)

structure IsProgram (node : Node) (program : core.Program) : Prop where
  keys : node.HasKeys programKeys
  language : node.Text (ascii "language") posixShellLanguage
  script : ∃ material, node.Text (ascii "script") material ∧
    core.program .posixShell material = .ok program

def IsRequirement (scope : core.RequirementScope) (path : Bytes) (entry : Node)
    (declaration : core.RequirementDeclaration) : Prop :=
  ∃ subject site, IsSubject core entry subject ∧ provenance core context path entry = .ok site ∧
    core.requirementDeclaration scope subject site = .ok declaration

def IsRequirementSequence (path : Bytes) (scope : Except CoreError core.RequirementScope)
    (node : Node) (declarations : List core.RequirementDeclaration) : Prop :=
  ∃ scope', scope = .ok scope' ∧
    IsItems (fun index => IsRequirement core context scope' (indexed path index)) node declarations

/-- The requirements of each lifecycle action, grouped by the keys of the mapping. -/
def IsLifecycleRequirements (path : Bytes) (node : Node)
    (groups : List (List core.RequirementDeclaration)) : Prop :=
  IsEntries (fun key subjects group => ∃ action : LifecycleAction, key.scalar = action.name ∧
    IsRequirementSequence core context (childPath path key.scalar) (core.lifecycleScope action)
      subjects group) node groups

structure RequirementGroups where
  build : List core.RequirementDeclaration
  run : List core.RequirementDeclaration
  check : List core.RequirementDeclaration
  lifecycle : List (List core.RequirementDeclaration)

/-- The requirement list of the declaration: the lifecycle block comes last. -/
def RequirementGroups.flatten (groups : RequirementGroups core) :
    List core.RequirementDeclaration :=
  groups.build ++ groups.run ++ groups.check ++ groups.lifecycle.flatten

structure IsRequirements (path : Bytes) (node : Node) (groups : RequirementGroups core) :
    Prop where
  keys : node.HasKeys requirementKeys
  build : IsOptional
    (IsRequirementSequence core context (childPath path (ascii "build")) core.buildScope) []
    (node.field? (ascii "build")) groups.build
  run : IsOptional
    (IsRequirementSequence core context (childPath path (ascii "run")) core.runScope) []
    (node.field? (ascii "run")) groups.run
  check : IsOptional
    (IsRequirementSequence core context (childPath path (ascii "check")) core.checkScope) []
    (node.field? (ascii "check")) groups.check
  lifecycle : IsOptional
    (IsLifecycleRequirements core context (childPath path (ascii "lifecycle"))) []
    (node.field? (ascii "lifecycle")) groups.lifecycle

def IsLifecycle (node : Node) (programs : List core.LifecycleProgram) : Prop :=
  IsEntries (fun key programNode lifecycleProgram => ∃ (action : LifecycleAction) (program : _),
    key.scalar = action.name ∧ IsProgram core programNode program ∧
      core.lifecycleProgram action program = .ok lifecycleProgram) node programs

def IsArchitectureList (node : Node) (references : List core.ArchitectureReference) : Prop :=
  IsItems (fun _ entry reference => ∃ name, entry.IsText name ∧
    core.architectureReference name = .ok reference) node references

def ArchitecturesOutcome (node : Node)
    (outcome : Except CoreError core.ArchitectureRequirements) : Prop :=
  ∃ build target, IsOptional (IsArchitectureList core) [] (node.field? (ascii "build")) build ∧
    IsOptional (IsArchitectureList core) [] (node.field? (ascii "target")) target ∧
    core.architectureRequirements build target = outcome

structure IsArchitectures (node : Node) (architectures : core.ArchitectureRequirements) :
    Prop where
  keys : node.HasKeys architectureKeys
  accepted : ArchitecturesOutcome core node (.ok architectures)

def IsUnpack (node : Node) (unpack : SourceUnpackKind) : Prop :=
  node.IsText (ascii "archive") ∧ unpack = .archive

/-- Exactly one locator, which decides how the source is built, and what `libpkgsource` says to it.
-/
inductive IsLocated (node : Node) (name : Bytes) (content : core.Digest)
    (unpack : SourceUnpackKind) (outcome : Except CoreError core.SourceInput) : Prop where
  | url (locator : Bytes) (url : node.Text (ascii "url") locator)
      (path : node.field? (ascii "path") = none)
      (call : core.remoteSource locator name content unpack = outcome)
  | path (locator : Bytes) (url : node.field? (ascii "url") = none)
      (path : node.Text (ascii "path") locator)
      (call : core.localSource locator name content unpack = outcome)

/-- What a source entry asks `libpkgsource` for, and the outcome. -/
def SourceOutcome (node : Node) (outcome : Except CoreError core.SourceInput) : Prop :=
  ∃ name hash content unpack, node.Text (ascii "name") name ∧
    node.Text (ascii "sha256") hash ∧ core.digest .sha256 hash = .ok content ∧
    IsOptional IsUnpack .none (node.field? (ascii "unpack")) unpack ∧
    IsLocated core node name content unpack outcome

structure IsSource (node : Node) (source : core.SourceInput) : Prop where
  keys : node.HasKeys sourceKeys
  accepted : SourceOutcome core node (.ok source)

def IsSources (node : Node) (sources : List core.SourceInput) : Prop :=
  IsItems (fun _ => IsSource core) node sources

structure ReleaseFields (node : Node) (name version : Bytes) (number : UInt32) : Prop where
  keys : node.HasKeys packageKeys
  name : node.Text (ascii "name") name
  version : node.Text (ascii "version") version
  release : ∃ text, node.Text (ascii "release") text ∧ CanonicalRelease text number

def ReleaseOutcome (node : Node) (outcome : Except CoreError core.PackageRelease) : Prop :=
  ∃ name version number, ReleaseFields node name version number ∧
    core.packageReleaseOf name version number = outcome

def IsRelease (node : Node) (release : core.PackageRelease) : Prop :=
  ReleaseOutcome core node (.ok release)

def IsOptionalText (node : Node) (text : Option Bytes) : Prop :=
  ∃ found, node.IsText found ∧ text = some found

structure MetadataFields (node : Node) (summary : Bytes) (description homepage : Option Bytes)
    (licenses : List Bytes) : Prop where
  summary : node.Text (ascii "summary") summary
  description : IsOptional IsOptionalText none (node.field? (ascii "description")) description
  homepage : IsOptional IsOptionalText none (node.field? (ascii "homepage")) homepage
  licenses : ∃ list, node.field? (ascii "licenses") = some list ∧
    IsItems (fun _ => Node.IsText) list licenses

def MetadataOutcome (node : Node) (outcome : Except CoreError core.PackageMetadata) : Prop :=
  ∃ summary description homepage licenses,
    MetadataFields node summary description homepage licenses ∧
    core.packageMetadata summary description homepage licenses = outcome

def IsMetadata (node : Node) (metadata : core.PackageMetadata) : Prop :=
  MetadataOutcome core node (.ok metadata)

structure RecipeFields where
  release : core.PackageRelease
  metadata : core.PackageMetadata
  sources : List core.SourceInput
  build : core.Program
  requirements : RequirementGroups core
  lifecycle : List core.LifecycleProgram
  architectures : core.ArchitectureRequirements
  provenance : core.DeclarationProvenance
  check : Option core.Program

/-- The architectures of a recipe root; without the key, `libpkgsource` is asked for the empty
value. -/
def IsRecipeArchitectures (root : Node) (architectures : core.ArchitectureRequirements) : Prop :=
  match root.field? (ascii "architectures") with
  | none => core.architectureRequirements [] [] = .ok architectures
  | some node => IsArchitectures core node architectures

structure IsRecipe (root : Node) (fields : RecipeFields core) : Prop where
  keys : root.HasKeys recipeKeys
  format : root.Text (ascii "format") (ascii "zeppe-lin.recipe/1")
  package : ∃ node, root.field? (ascii "package") = some node ∧ node.kind = .mapping ∧
    IsRelease core node fields.release ∧ IsMetadata core node fields.metadata
  requirements : ∃ node, root.field? (ascii "requirements") = some node ∧
    IsRequirements core context (ascii "requirements") node fields.requirements
  sources : ∃ node, root.field? (ascii "sources") = some node ∧ IsSources core node fields.sources
  build : ∃ node, root.field? (ascii "build") = some node ∧ IsProgram core node fields.build
  check : IsOptional (fun node check => ∃ program, IsProgram core node program ∧
    check = some program) none (root.field? (ascii "check")) fields.check
  lifecycle : IsOptional (IsLifecycle core) [] (root.field? (ascii "lifecycle")) fields.lifecycle
  architectures : IsRecipeArchitectures core root fields.architectures
  provenance : provenance core context (ascii "document") root = .ok fields.provenance

def RecipeFields.declare (fields : RecipeFields core) : Except CoreError core.RecipeDeclaration :=
  core.recipeDeclaration fields.release fields.metadata fields.sources fields.build
    (fields.requirements.flatten core) fields.lifecycle fields.architectures fields.provenance
    fields.check

def IsMember (path : Bytes) (entry : Node) (member : core.ProfileMemberDeclaration) : Prop :=
  ∃ subject site, IsSubject core entry subject ∧ provenance core context path entry = .ok site ∧
    core.profileMemberDeclaration subject site = .ok member

def profilePath (key : Bytes) : Bytes := ascii "profiles." ++ key

structure IsMembers (key : Bytes) (definition : Node)
    (members : List core.ProfileMemberDeclaration) : Prop where
  keys : definition.HasKeys [ascii "members"]
  members : ∃ list, definition.field? (ascii "members") = some list ∧
    IsItems (fun index => IsMember core context
      (indexed (profilePath key ++ ascii ".members") index)) list members

/-- One profile: its name is the key behind an `@`, its site the key itself. -/
def ProfileOutcome (key definition : Node)
    (outcome : Except CoreError core.ProfileDeclaration) : Prop :=
  ∃ reference site members, core.profileReference (ascii "@" ++ key.scalar) = .ok reference ∧
    provenance core context (profilePath key.scalar) key = .ok site ∧
    IsMembers core context key.scalar definition members ∧
    core.profileDeclaration reference site members = outcome

def IsProfile (key definition : Node) (declaration : core.ProfileDeclaration) : Prop :=
  ProfileOutcome core context key definition (.ok declaration)

/-- What a profiles document means: one declaration for each key, in document order. -/
structure IsProfiles (root : Node) (declarations : List core.ProfileDeclaration) : Prop where
  keys : root.HasKeys [ascii "format", ascii "profiles"]
  format : root.Text (ascii "format") (ascii "zeppe-lin.profiles/1")
  profiles : ∃ node, root.field? (ascii "profiles") = some node ∧
    IsEntries (IsProfile core context) node declarations

/-! ### Documents

The same grammars as predicates on trees: what has to hold of a tree for it to mean something, apart
from the calls of `libpkgsource` that the parser does not guard. -/

def SubjectSequence (node : Node) : Prop :=
  node.kind = .sequence ∧ ∀ entry ∈ node.children, ∃ subject, IsSubject core entry subject

def ActionTable (Accepts : Node → Prop) (node : Node) : Prop :=
  node.kind = .mapping ∧ ∀ pair ∈ node.pairs,
    (∃ action : LifecycleAction, pair.1.scalar = action.name) ∧ Accepts pair.2

structure RequirementsDocument (node : Node) : Prop where
  keys : node.HasKeys requirementKeys
  build : ∀ child, node.field? (ascii "build") = some child → SubjectSequence core child
  run : ∀ child, node.field? (ascii "run") = some child → SubjectSequence core child
  check : ∀ child, node.field? (ascii "check") = some child → SubjectSequence core child
  lifecycle : ∀ child, node.field? (ascii "lifecycle") = some child →
    ActionTable (SubjectSequence core) child

structure RecipeDocument (root : Node) : Prop where
  keys : root.HasKeys recipeKeys
  format : root.Text (ascii "format") (ascii "zeppe-lin.recipe/1")
  package : ∃ node, root.field? (ascii "package") = some node ∧ node.kind = .mapping ∧
    (∃ release, IsRelease core node release) ∧ ∃ metadata, IsMetadata core node metadata
  requirements : ∃ node, root.field? (ascii "requirements") = some node ∧
    RequirementsDocument core node
  sources : ∃ node, root.field? (ascii "sources") = some node ∧ node.kind = .sequence ∧
    ∀ entry ∈ node.children, ∃ source, IsSource core entry source
  build : ∃ node, root.field? (ascii "build") = some node ∧ ∃ program, IsProgram core node program
  check : ∀ node, root.field? (ascii "check") = some node → ∃ program, IsProgram core node program
  lifecycle : ∀ node, root.field? (ascii "lifecycle") = some node →
    ActionTable (fun programNode => ∃ program, IsProgram core programNode program) node
  architectures : ∀ node, root.field? (ascii "architectures") = some node →
    ∃ architectures, IsArchitectures core node architectures

structure ProfileDocument (key definition : Node) : Prop where
  reference : ∃ reference, core.profileReference (ascii "@" ++ key.scalar) = .ok reference
  site : ∃ site, provenance core context (profilePath key.scalar) key = .ok site
  keys : definition.HasKeys [ascii "members"]
  members : ∃ list, definition.field? (ascii "members") = some list ∧ SubjectSequence core list
  accepted : ∀ reference site members,
    core.profileReference (ascii "@" ++ key.scalar) = .ok reference →
    provenance core context (profilePath key.scalar) key = .ok site →
    IsMembers core context key.scalar definition members →
    ∃ declaration, core.profileDeclaration reference site members = .ok declaration

structure ProfilesDocument (root : Node) : Prop where
  keys : root.HasKeys [ascii "format", ascii "profiles"]
  format : root.Text (ascii "format") (ascii "zeppe-lin.profiles/1")
  profiles : ∃ node, root.field? (ascii "profiles") = some node ∧ node.kind = .mapping ∧
    ∀ pair ∈ node.pairs, ProfileDocument core context pair.1 pair.2

end PkgsourceYaml
