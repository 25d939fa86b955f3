import PkgsourceYaml.Recipe
import PkgsourceYaml.Profiles
import PkgsourceYaml.Tree
import PkgsourceYaml.Library.Throwing

/-!
# Presentation

What may change in a document without changing what it means: where its events stand, what the
document is called, and whether a permitted tag is written out. Two runs are compared by what they
declare, up to the places recorded in it, or by the category and the path of what they throw.
-/

namespace PkgsourceYaml

open Throwing

/-! ### Inputs -/

/-- A standard tag of the node kind, or no tag. -/
def StandardTag (kind : NodeKind) (tag : Bytes) : Prop :=
  tag = [] ∨ tag ∈ EventTree.standardTags kind

/-- The same event, at another mark, and perhaps under another tag that its node kind permits. -/
structure YamlEvent.Restyled (event event' : YamlEvent) : Prop where
  kind : event.kind = event'.kind
  value : event.kind = .scalar → event.value = event'.value
  anchor : event.anchor = [] ↔ event'.anchor = []
  directives : event.hasDirectives = event'.hasDirectives
  tag : event.tag = event'.tag ∨ ∃ kind, event.kind.nodeKind? = some kind ∧
    StandardTag kind event.tag ∧ StandardTag kind event'.tag

/-- The category and the path of a `yaml_error` are its verdict; a `libpkgsource` error has neither.
-/
def Exception.SameVerdict : Exception → Exception → Prop
  | .yaml error, .yaml error' => error.code = error'.code ∧ error.path = error'.path
  | .core _, .core _ => True
  | exception, exception' => exception = exception'

/-- Inputs of one length whose event streams agree event by event. -/
structure Input.Restyled (input input' : Input) : Prop where
  byteLength : input.byteLength = input'.byteLength
  provider : ∀ call,
    Agrees (fun failed failed' => failed.exception.SameVerdict failed'.exception)
      YamlEvent.Restyled (input.provider call) (input'.provider call)

/-! ### Trees -/

/-- The same tree, with marks related one by one. -/
inductive Node.Alike (Mark : SourceMark → SourceMark → Prop) : Node → Node → Prop where
  | intro {kind : NodeKind} {mark mark' : SourceMark} {scalar : Bytes}
      {children children' : List Node} (hmark : Mark mark mark')
      (hchildren : List.Forall₂ (Node.Alike Mark) children children') :
      Node.Alike Mark ⟨kind, mark, scalar, children⟩ ⟨kind, mark', scalar, children'⟩

/-! ### Declarations -/

section

variable (core : Core)

def Accepted {α : Type} (call : Except CoreError α) : Prop := ∃ a, call = .ok a

/-- Provenances of one path: they differ at most in label, line and column. -/
def SiteRelocated (site site' : core.DeclarationProvenance) : Prop :=
  ∃ path document line column document' line' column',
    core.declarationProvenance document path line column = .ok site ∧
      core.declarationProvenance document' path line' column' = .ok site'

variable (Site : core.DeclarationProvenance → core.DeclarationProvenance → Prop)

/-- Requirements built from the same scope and subject, at related sites. -/
def RequirementUpTo (declaration declaration' : core.RequirementDeclaration) : Prop :=
  ∃ scope subject site site', Site site site' ∧
    core.requirementDeclaration scope subject site = .ok declaration ∧
    core.requirementDeclaration scope subject site' = .ok declaration'

def MemberUpTo (member member' : core.ProfileMemberDeclaration) : Prop :=
  ∃ subject site site', Site site site' ∧
    core.profileMemberDeclaration subject site = .ok member ∧
    core.profileMemberDeclaration subject site' = .ok member'

def ProfileUpTo (declaration declaration' : core.ProfileDeclaration) : Prop :=
  ∃ reference site site' members members', Site site site' ∧
    List.Forall₂ (MemberUpTo core Site) members members' ∧
    core.profileDeclaration reference site members = .ok declaration ∧
    core.profileDeclaration reference site' members' = .ok declaration'

/-- Recipes built from the same arguments, but for the sites of the recipe and its requirements. -/
def RecipeUpTo (declaration declaration' : core.RecipeDeclaration) : Prop :=
  ∃ release metadata sources build requirements requirements' lifecycle architectures site site'
    check, List.Forall₂ (RequirementUpTo core Site) requirements requirements' ∧ Site site site' ∧
    core.recipeDeclaration release metadata sources build requirements lifecycle architectures site
      check = .ok declaration ∧
    core.recipeDeclaration release metadata sources build requirements' lifecycle architectures
      site' check = .ok declaration'

/-- What is assumed of `libpkgsource`: at one-based marks only the path decides whether a provenance
is accepted, and what a provenance is part of is accepted at one place as at any other. -/
structure Relocatable : Prop where
  provenance : ∀ path document line column document' line' column',
    1 ≤ line → 1 ≤ column → 1 ≤ line' → 1 ≤ column' →
    (Accepted (core.declarationProvenance document path line column) ↔
      Accepted (core.declarationProvenance document' path line' column'))
  requirement : ∀ scope subject site site', SiteRelocated core site site' →
    (Accepted (core.requirementDeclaration scope subject site) ↔
      Accepted (core.requirementDeclaration scope subject site'))
  member : ∀ subject site site', SiteRelocated core site site' →
    (Accepted (core.profileMemberDeclaration subject site) ↔
      Accepted (core.profileMemberDeclaration subject site'))
  profile : ∀ reference site site' members members', SiteRelocated core site site' →
    List.Forall₂ (MemberUpTo core (SiteRelocated core)) members members' →
    (Accepted (core.profileDeclaration reference site members) ↔
      Accepted (core.profileDeclaration reference site' members'))
  recipe : ∀ release metadata sources build requirements requirements' lifecycle architectures
    site site' check,
    List.Forall₂ (RequirementUpTo core (SiteRelocated core)) requirements requirements' →
    SiteRelocated core site site' →
    (Accepted (core.recipeDeclaration release metadata sources build requirements lifecycle
        architectures site check) ↔
      Accepted (core.recipeDeclaration release metadata sources build requirements' lifecycle
        architectures site' check))

end

end PkgsourceYaml
