import PkgsourceYaml.Plan
import PkgsourceYaml.Library.Blocks

/-!
# Canonical documents

What a recipe or a profiles document says, apart from how it is written down, and for everything
that can be said one document that says it. Sections of a recipe that may be empty are written
without exception, so that only what is a choice is left out.
-/

namespace PkgsourceYaml

open Pairing

/-! ### What can be said -/

inductive SubjectContent where
  | package (name : Bytes)
  | profile (name : Bytes)
  deriving DecidableEq

inductive LocatorContent where
  | url (locator : Bytes)
  | path (locator : Bytes)
  deriving DecidableEq

@[ext] structure SourceContent where
  locator : LocatorContent
  name : Bytes
  sha256 : Bytes
  unpack : SourceUnpackKind
  deriving DecidableEq

/-- What a recipe says. An action without requirements says nothing. -/
@[ext] structure RecipeContent where
  name : Bytes
  version : Bytes
  release : UInt32
  summary : Bytes
  description : Option Bytes
  homepage : Option Bytes
  licenses : List Bytes
  sources : List SourceContent
  build : Bytes
  check : Option Bytes
  buildRequirements : List SubjectContent
  runRequirements : List SubjectContent
  checkRequirements : List SubjectContent
  lifecycleRequirements : List (LifecycleAction × List SubjectContent)
  lifecycle : List (LifecycleAction × Bytes)
  buildArchitectures : List Bytes
  targetArchitectures : List Bytes
  positive : release ≠ 0
  filled : ∀ block ∈ lifecycleRequirements, block.2 ≠ []
  requirementActions : (lifecycleRequirements.map Prod.fst).Nodup
  lifecycleActions : (lifecycle.map Prod.fst).Nodup

/-- What a profiles document says. A name stands without its `@`. -/
@[ext] structure ProfilesContent where
  profiles : List (Bytes × List SubjectContent)
  noMerge : ascii "<<" ∉ profiles.map Prod.fst
  names : (profiles.map Prod.fst).Nodup

/-! ### Writing it down -/

namespace EventTree

def scalarOf (value : Bytes) : EventTree := .scalar { kind := .scalar, value := value }

def mappingOf (fields : List (Bytes × EventTree)) : EventTree :=
  .collection .mapping { kind := .mappingStart }
    (unpairs (fields.map fun field => (scalarOf field.1, field.2))) { kind := .mappingEnd }

def optionalField (key : Bytes) (value : Option EventTree) : List (Bytes × EventTree) :=
  value.toList.map fun tree => (key, tree)

/-- The tree stays within the ceilings. -/
structure Fits (limits : ParseLimits) (tree : EventTree) : Prop where
  nodes : tree.subtrees.length ≤ limits.maximumNodes
  depth : tree.depth ≤ limits.maximumDepth
  scalars : ∀ subtree ∈ tree.subtrees, subtree.kind = .scalar →
    subtree.first.value.length ≤ limits.maximumScalarBytes

/-- The events of the node itself stand where a document without marks has them. -/
def Unmarked : EventTree → Prop
  | .scalar event => event.mark = ⟨1, 1⟩
  | .collection _ first _ last => first.mark = ⟨1, 1⟩ ∧ last.mark = ⟨1, 1⟩

end EventTree

/-- The input stays within the ceilings, and its events are those of a document around the tree, at
whatever marks, and with standard tags written out or left out. -/
structure Presents (input : Input) (limits : ParseLimits) (tree : EventTree) : Prop where
  bytes : input.byteLength ≤ limits.maximumDocumentBytes
  fits : tree.Fits limits
  events : ∃ events, input.provider.Yields 0 events ∧
    List.Forall₂ YamlEvent.Restyled (DocumentEvents.around tree).serialize events ∧
    ∀ event ∈ events, event.mark.OneBased

open EventTree

def SubjectContent.field : SubjectContent → Bytes × EventTree
  | .package name => (ascii "package", scalarOf name)
  | .profile name => (ascii "profile", scalarOf name)

def SubjectContent.write (subject : SubjectContent) : EventTree := mappingOf [subject.field]

def writeSubjects (subjects : List SubjectContent) : EventTree :=
  items (subjects.map SubjectContent.write)

def writeProgram (material : Bytes) : EventTree :=
  mappingOf [(ascii "language", scalarOf posixShellLanguage), (ascii "script", scalarOf material)]

def LocatorContent.field : LocatorContent → Bytes × EventTree
  | .url locator => (ascii "url", scalarOf locator)
  | .path locator => (ascii "path", scalarOf locator)

def writeUnpack : SourceUnpackKind → Option EventTree
  | .none => none
  | .archive => some (scalarOf (ascii "archive"))

def SourceContent.fields (source : SourceContent) : List (Bytes × EventTree) :=
  [source.locator.field, (ascii "name", scalarOf source.name),
    (ascii "sha256", scalarOf source.sha256)] ++
  optionalField (ascii "unpack") (writeUnpack source.unpack)

def SourceContent.write (source : SourceContent) : EventTree := mappingOf source.fields

/-- A mapping from lifecycle actions. -/
def writeActions {α : Type} (write : α → EventTree) (actions : List (LifecycleAction × α)) :
    EventTree :=
  mappingOf (actions.map fun entry => (entry.1.name, write entry.2))

namespace RecipeContent

variable (content : RecipeContent)

def packageFields : List (Bytes × EventTree) :=
  [(ascii "name", scalarOf content.name), (ascii "version", scalarOf content.version),
    (ascii "release", scalarOf (decimal content.release.toNat)),
    (ascii "summary", scalarOf content.summary),
    (ascii "licenses", items (content.licenses.map scalarOf))] ++
  (optionalField (ascii "description") (content.description.map scalarOf) ++
    optionalField (ascii "homepage") (content.homepage.map scalarOf))

def writePackage : EventTree := mappingOf content.packageFields

def writeRequirements : EventTree :=
  mappingOf
    [(ascii "build", writeSubjects content.buildRequirements),
      (ascii "run", writeSubjects content.runRequirements),
      (ascii "check", writeSubjects content.checkRequirements),
      (ascii "lifecycle", writeActions writeSubjects content.lifecycleRequirements)]

def writeArchitectures : EventTree :=
  mappingOf
    [(ascii "build", items (content.buildArchitectures.map scalarOf)),
      (ascii "target", items (content.targetArchitectures.map scalarOf))]

def rootFields : List (Bytes × EventTree) :=
  [(ascii "format", scalarOf (ascii "zeppe-lin.recipe/1")),
    (ascii "package", content.writePackage),
    (ascii "requirements", content.writeRequirements),
    (ascii "sources", items (content.sources.map SourceContent.write)),
    (ascii "build", writeProgram content.build),
    (ascii "lifecycle", writeActions writeProgram content.lifecycle),
    (ascii "architectures", content.writeArchitectures)] ++
  optionalField (ascii "check") (content.check.map writeProgram)

def write : EventTree := mappingOf content.rootFields

end RecipeContent

def writeProfile (members : List SubjectContent) : EventTree :=
  mappingOf [(ascii "members", writeSubjects members)]

def ProfilesContent.write (content : ProfilesContent) : EventTree :=
  mappingOf
    [(ascii "format", scalarOf (ascii "zeppe-lin.profiles/1")),
      (ascii "profiles",
        mappingOf (content.profiles.map fun profile => (profile.1, writeProfile profile.2)))]

/-! ### The plan of what is said

Everything stands at the first line and column, as it does in a document that is written without
marks. -/

def SubjectContent.plan : SubjectContent → Core.recording.RequirementSubject
  | .package name => .inl name
  | .profile name => .inr name

def SourceContent.plan (source : SourceContent) : Core.recording.SourceInput :=
  match source.locator with
  | .url locator => .inl (locator, source.name, (.sha256, source.sha256), source.unpack)
  | .path locator => .inr (locator, source.name, (.sha256, source.sha256), source.unpack)

variable (origin : SourceOrigin)

def planSite (path : Bytes) : Core.recording.DeclarationProvenance :=
  (origin.document, path, 1, 1)

def planRequirements (name : ScopeName) (subjects : List SubjectContent) :
    List Core.recording.RequirementDeclaration :=
  subjects.zipIdx.map fun entry =>
    (name, entry.1.plan, planSite origin (indexed name.path entry.2))

namespace RecipeContent

variable (content : RecipeContent)

/-- The fields of the recipe, as they are read from the document that is written for it. -/
def fields : RecipeFields Core.recording where
  release := (content.name, content.version, content.release)
  metadata := (content.summary, content.description, content.homepage, content.licenses)
  sources := content.sources.map SourceContent.plan
  build := (.posixShell, content.build)
  requirements :=
    { build := planRequirements origin .build content.buildRequirements
      run := planRequirements origin .run content.runRequirements
      check := planRequirements origin .check content.checkRequirements
      lifecycle := content.lifecycleRequirements.map fun block =>
        planRequirements origin (.lifecycle block.1) block.2 }
  lifecycle := content.lifecycle.map fun entry => (entry.1, .posixShell, entry.2)
  architectures := (content.buildArchitectures, content.targetArchitectures)
  provenance := planSite origin (ascii "document")
  check := content.check.map fun material => (.posixShell, material)

def plan : Core.recording.RecipeDeclaration :=
  let fields := content.fields origin
  (fields.release, fields.metadata, fields.sources, fields.build,
    fields.requirements.flatten Core.recording, fields.lifecycle, fields.architectures,
    fields.provenance, fields.check)

end RecipeContent

def planMembers (name : Bytes) (members : List SubjectContent) :
    List Core.recording.ProfileMemberDeclaration :=
  members.zipIdx.map fun entry => (entry.1.plan, planSite origin (memberPath name entry.2))

def ProfilesContent.plan (content : ProfilesContent) : List Core.recording.ProfileDeclaration :=
  content.profiles.map fun profile =>
    (ascii "@" ++ profile.1, planSite origin (profilePath profile.1),
      planMembers origin profile.1 profile.2)

end PkgsourceYaml
