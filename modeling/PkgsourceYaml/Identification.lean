import PkgsourceYaml.Order
import PkgsourceYaml.Places
import PkgsourceYaml.Presentation

/-!
# Documents that mean the same

Which recipe documents the declaration of a recipe cannot tell apart: they are the same after
forgetting marks, the order of keys where it does not matter, and sections that are empty rather
than absent. Everything here is read off the trees.
-/

namespace PkgsourceYaml

/-- The same tree after forgetting marks and the order of the pairs of its mappings. -/
def Node.SameContent (node node' : Node) : Prop :=
  ∃ middle, Permuted node middle ∧ middle.Alike (fun _ _ => True) node'

/-- The value under a key, unless it is an empty collection. -/
def Node.filled? (node : Node) (key : Bytes) : Option Node :=
  (node.field? key).filter fun value => !value.children.isEmpty

/-- The pairs of an optional mapping, in document order. -/
def pairsUnder (found : Option Node) : List (Node × Node) := found.elim [] Node.pairs

/-- The pairs of an optional mapping whose values are not empty, in document order. -/
def filledPairsUnder (found : Option Node) : List (Node × Node) :=
  (pairsUnder found).filter fun pair => !pair.2.children.isEmpty

/-- The same keys in the same order, with the same values. -/
def SamePairs (list list' : List (Node × Node)) : Prop :=
  List.Forall₂ (fun pair pair' => pair.1.SameContent pair'.1 ∧ pair.2.SameContent pair'.2)
    list list'

/-- An absent `build`, `run` or `check` is an empty sequence, an absent `lifecycle` an empty
mapping, and an action with an empty sequence is no action. Lifecycle actions keep their order. -/
structure SameRequirements (node node' : Node) : Prop where
  scopes : ∀ key, key ≠ ascii "lifecycle" →
    Option.Rel Node.SameContent (node.filled? key) (node'.filled? key)
  lifecycle : SamePairs (filledPairsUnder (node.field? (ascii "lifecycle")))
    (filledPairsUnder (node'.field? (ascii "lifecycle")))

/-- An absent `build` or `target` is an empty sequence, and absent architectures have neither. -/
def SameArchitectures (found found' : Option Node) : Prop :=
  ∀ key, Option.Rel Node.SameContent (found.bind (·.filled? key)) (found'.bind (·.filled? key))

/-- Only architectures that restrict nothing at all are the same as absent ones; others are compared
as they are written. -/
def SameArchitecturesAsWritten (found found' : Option Node) : Prop :=
  Option.Rel Node.SameContent (found.filter restricts) (found'.filter restricts)
where
  restricts (node : Node) : Bool :=
    (node.filled? (ascii "build")).isSome || (node.filled? (ascii "target")).isSome

/-- Recipe roots that are the same section by section. An absent `lifecycle` is an empty mapping,
and its actions keep their order; how architectures are compared is a parameter. -/
structure SameDocument (Architectures : Option Node → Option Node → Prop) (root root' : Node) :
    Prop where
  sections : ∀ key, key ∉ [ascii "requirements", ascii "lifecycle", ascii "architectures"] →
    Option.Rel Node.SameContent (root.field? key) (root'.field? key)
  requirements : Option.Rel SameRequirements (root.field? (ascii "requirements"))
    (root'.field? (ascii "requirements"))
  lifecycle : SamePairs (pairsUnder (root.field? (ascii "lifecycle")))
    (pairsUnder (root'.field? (ascii "lifecycle")))
  architectures : Architectures (root.field? (ascii "architectures"))
    (root'.field? (ascii "architectures"))

/-- Profiles roots that are the same section by section: the profiles keep their order. -/
structure SameProfilesDocument (root root' : Node) : Prop where
  sections : ∀ key, key ≠ ascii "profiles" →
    Option.Rel Node.SameContent (root.field? key) (root'.field? key)
  profiles : SamePairs (pairsUnder (root.field? (ascii "profiles")))
    (pairsUnder (root'.field? (ascii "profiles")))

/-! ### A libpkgsource that keeps its arguments -/

/-- Where it accepts, a constructor gives different values to different arguments. -/
def Injects {α β : Type} (construct : α → Except CoreError β) : Prop :=
  ∀ a a' b, construct a = .ok b → construct a' = .ok b → a = a'

/-- What is assumed of `libpkgsource`: its constructors keep their arguments apart where they
accept, and values built by different constructors are different. Nothing is said about provenances.
-/
structure Faithful (core : Core) : Prop where
  packageReference : Injects core.packageReference
  profileReference : Injects core.profileReference
  packageSubject : Injects core.packageSubject
  profileSubject : Injects core.profileSubject
  subjects : ∀ reference reference' subject, core.packageSubject reference = .ok subject →
    core.profileSubject reference' ≠ .ok subject
  scopes : Injects fun name => ScopeName.scope core name
  requirement : ∀ scope scope' subject subject' site site' declaration,
    core.requirementDeclaration scope subject site = .ok declaration →
    core.requirementDeclaration scope' subject' site' = .ok declaration →
    scope = scope' ∧ subject = subject'
  architectureReference : Injects core.architectureReference
  architectures : ∀ build build' target target' architectures,
    core.architectureRequirements build target = .ok architectures →
    core.architectureRequirements build' target' = .ok architectures →
    build = build' ∧ target = target'
  program : Injects (core.program .posixShell)
  lifecycle : ∀ action action' body body' program,
    core.lifecycleProgram action body = .ok program →
    core.lifecycleProgram action' body' = .ok program → action = action' ∧ body = body'
  digest : Injects (core.digest .sha256)
  remoteSource : ∀ locator locator' name name' content content' unpack unpack' source,
    core.remoteSource locator name content unpack = .ok source →
    core.remoteSource locator' name' content' unpack' = .ok source →
    locator = locator' ∧ name = name' ∧ content = content' ∧ unpack = unpack'
  localSource : ∀ locator locator' name name' content content' unpack unpack' source,
    core.localSource locator name content unpack = .ok source →
    core.localSource locator' name' content' unpack' = .ok source →
    locator = locator' ∧ name = name' ∧ content = content' ∧ unpack = unpack'
  sources : ∀ locator locator' name name' content content' unpack unpack' source,
    core.remoteSource locator name content unpack = .ok source →
    core.localSource locator' name' content' unpack' ≠ .ok source
  release : ∀ reference reference' version version' number number' release,
    core.packageRelease reference version number = .ok release →
    core.packageRelease reference' version' number' = .ok release →
    reference = reference' ∧ version = version' ∧ number = number'
  metadata : ∀ summary summary' description description' homepage homepage' licenses licenses'
    metadata, core.packageMetadata summary description homepage licenses = .ok metadata →
    core.packageMetadata summary' description' homepage' licenses' = .ok metadata →
    summary = summary' ∧ description = description' ∧ homepage = homepage' ∧ licenses = licenses'
  recipe : ∀ release release' metadata metadata' sources sources' build build' requirements
    requirements' lifecycle lifecycle' architectures architectures' site site' check check'
    declaration,
    core.recipeDeclaration release metadata sources build requirements lifecycle architectures site
      check = .ok declaration →
    core.recipeDeclaration release' metadata' sources' build' requirements' lifecycle'
      architectures' site' check' = .ok declaration →
    release = release' ∧ metadata = metadata' ∧ sources = sources' ∧ build = build' ∧
      requirements = requirements' ∧ lifecycle = lifecycle' ∧ architectures = architectures' ∧
      check = check'

/-- The same of the constructors that only profiles use. -/
structure FaithfulProfiles (core : Core) : Prop extends Faithful core where
  member : ∀ subject subject' site site' member,
    core.profileMemberDeclaration subject site = .ok member →
    core.profileMemberDeclaration subject' site' = .ok member → subject = subject'
  profile : ∀ reference reference' site site' members members' declaration,
    core.profileDeclaration reference site members = .ok declaration →
    core.profileDeclaration reference' site' members' = .ok declaration →
    reference = reference' ∧ members = members'

abbrev RecordedSite := Bytes × Bytes × UInt32 × UInt32

abbrev RecordedRequirement := ScopeName × (Bytes ⊕ Bytes) × RecordedSite

abbrev RecordedSource := Bytes × Bytes × (DigestAlgorithm × Bytes) × SourceUnpackKind

/-- A `libpkgsource` that accepts everything and keeps it as it is. -/
def Core.recording : Core where
  DeclarationProvenance := RecordedSite
  PackageReference := Bytes
  ProfileReference := Bytes
  RequirementSubject := Bytes ⊕ Bytes
  RequirementScope := ScopeName
  RequirementDeclaration := RecordedRequirement
  ArchitectureReference := Bytes
  ArchitectureRequirements := List Bytes × List Bytes
  Program := ProgramLanguage × Bytes
  LifecycleProgram := LifecycleAction × ProgramLanguage × Bytes
  Digest := DigestAlgorithm × Bytes
  SourceInput := RecordedSource ⊕ RecordedSource
  PackageRelease := Bytes × Bytes × UInt32
  PackageMetadata := Bytes × Option Bytes × Option Bytes × List Bytes
  RecipeDeclaration := (Bytes × Bytes × UInt32) ×
    (Bytes × Option Bytes × Option Bytes × List Bytes) × List (RecordedSource ⊕ RecordedSource) ×
    (ProgramLanguage × Bytes) × List RecordedRequirement ×
    List (LifecycleAction × ProgramLanguage × Bytes) × (List Bytes × List Bytes) × RecordedSite ×
    Option (ProgramLanguage × Bytes)
  ProfileMemberDeclaration := (Bytes ⊕ Bytes) × RecordedSite
  ProfileDeclaration := Bytes × RecordedSite × List ((Bytes ⊕ Bytes) × RecordedSite)
  declarationProvenance document path line column := .ok (document, path, line, column)
  packageReference name := .ok name
  profileReference name := .ok name
  packageSubject reference := .ok (.inl reference)
  profileSubject reference := .ok (.inr reference)
  buildScope := .ok .build
  runScope := .ok .run
  checkScope := .ok .check
  lifecycleScope action := .ok (.lifecycle action)
  requirementDeclaration scope subject site := .ok (scope, subject, site)
  architectureReference name := .ok name
  architectureRequirements build target := .ok (build, target)
  program language material := .ok (language, material)
  lifecycleProgram action program := .ok (action, program)
  digest algorithm hash := .ok (algorithm, hash)
  remoteSource locator name content unpack := .ok (.inl (locator, name, content, unpack))
  localSource locator name content unpack := .ok (.inr (locator, name, content, unpack))
  packageRelease reference version release := .ok (reference, version, release)
  packageMetadata summary description homepage licenses :=
    .ok (summary, description, homepage, licenses)
  recipeDeclaration release metadata sources build requirements lifecycle architectures site
      check :=
    .ok (release, metadata, sources, build, requirements, lifecycle, architectures, site, check)
  profileMemberDeclaration subject site := .ok (subject, site)
  profileDeclaration reference site members := .ok (reference, site, members)

end PkgsourceYaml
