import PkgsourceYaml.Grammar

/-!
# Where declarations stand

The place of a declaration is the path and the mark its provenance is built from. The places of a
document are read off its tree, in the order of the declarations.
-/

namespace PkgsourceYaml

structure Place where
  path : Bytes
  mark : SourceMark
  deriving DecidableEq

/-- The scopes a requirement can be declared in. -/
inductive ScopeName where
  | build
  | run
  | check
  | lifecycle (action : LifecycleAction)
  deriving DecidableEq

namespace ScopeName

def path : ScopeName → Bytes
  | .build => ascii "requirements.build"
  | .run => ascii "requirements.run"
  | .check => ascii "requirements.check"
  | .lifecycle action => ascii "requirements.lifecycle." ++ action.name

def scope (core : Core) : ScopeName → Except CoreError core.RequirementScope
  | .build => core.buildScope
  | .run => core.runScope
  | .check => core.checkScope
  | .lifecycle action => core.lifecycleScope action

end ScopeName

/-- One entry of a requirement sequence: the scope, the position in the sequence, and the node. -/
structure RequirementEntry where
  name : ScopeName
  index : Nat
  node : Node

def RequirementEntry.place (entry : RequirementEntry) : Place :=
  ⟨indexed entry.name.path entry.index, entry.node.mark⟩

def scopeEntries (name : ScopeName) (sequence : Node) : List RequirementEntry :=
  sequence.children.zipIdx.map fun item => ⟨name, item.2, item.1⟩

def LifecycleAction.all : List LifecycleAction :=
  [.preInstall, .postInstall, .preRemove, .postRemove]

def LifecycleAction.named? (text : Bytes) : Option LifecycleAction :=
  LifecycleAction.all.find? (·.name = text)

def actionEntries (pair : Node × Node) : List RequirementEntry :=
  (LifecycleAction.named? pair.1.scalar).elim [] fun action =>
    scopeEntries (.lifecycle action) pair.2

/-- The requirement entries of a `requirements` mapping, in the order of their declarations. -/
def Node.requirementEntries (requirements : Node) : List RequirementEntry :=
  (requirements.field? (ascii "build")).elim [] (scopeEntries .build) ++
    (requirements.field? (ascii "run")).elim [] (scopeEntries .run) ++
    (requirements.field? (ascii "check")).elim [] (scopeEntries .check) ++
    (requirements.field? (ascii "lifecycle")).elim [] fun node => node.pairs.flatMap actionEntries

/-- The places of a recipe's declarations, its own one first. -/
def recipePlaces (root requirements : Node) : List Place :=
  ⟨ascii "document", root.mark⟩ :: requirements.requirementEntries.map RequirementEntry.place

def memberPath (key : Bytes) (index : Nat) : Bytes :=
  indexed (profilePath key ++ ascii ".members") index

def memberPlace (key : Node) (entry : Node × Nat) : Place :=
  ⟨memberPath key.scalar entry.2, entry.1.mark⟩

/-- The members of a profile definition, with their positions. -/
def memberEntries (definition : Node) : List (Node × Nat) :=
  (definition.field? (ascii "members")).elim [] fun list => list.children.zipIdx

/-- The places of one profile and of its members. -/
def profilePlaces (pair : Node × Node) : List Place :=
  ⟨profilePath pair.1.scalar, pair.1.mark⟩ :: (memberEntries pair.2).map (memberPlace pair.1)

variable (core : Core) (origin : SourceOrigin)

/-- The provenance of a place, labelled by the origin. -/
def Place.Sites (place : Place) (site : core.DeclarationProvenance) : Prop :=
  core.declarationProvenance origin.document place.path place.mark.line place.mark.column = .ok site

/-- The requirement of an entry, in its own scope and at its own place. -/
def RequirementEntry.Declares (entry : RequirementEntry)
    (declaration : core.RequirementDeclaration) : Prop :=
  ∃ scope subject site, entry.name.scope core = .ok scope ∧ IsSubject core entry.node subject ∧
    entry.place.Sites core origin site ∧
    core.requirementDeclaration scope subject site = .ok declaration

/-- The declarations of a recipe stand where its tree says, at places and under actions that no two
of them share. -/
structure LocatedRecipe (root requirements : Node) (fields : RecipeFields core) : Prop where
  entries : List.Forall₂ (RequirementEntry.Declares core origin) requirements.requirementEntries
    (fields.requirements.flatten core)
  recipe : Place.Sites core origin ⟨ascii "document", root.mark⟩ fields.provenance
  distinct : ((recipePlaces root requirements).map Place.path).Nodup
  actions : ∃ actions : List LifecycleAction, actions.Nodup ∧
    List.Forall₂ (fun action program => ∃ body, core.lifecycleProgram action body = .ok program)
      actions fields.lifecycle

/-- One profile stands at its key and each member at its own node. -/
def DeclaresProfile (pair : Node × Node) (declaration : core.ProfileDeclaration) : Prop :=
  ∃ reference site members, core.profileReference (ascii "@" ++ pair.1.scalar) = .ok reference ∧
    Place.Sites core origin ⟨profilePath pair.1.scalar, pair.1.mark⟩ site ∧
    List.Forall₂ (fun entry member => ∃ subject site, IsSubject core entry.1 subject ∧
      (memberPlace pair.1 entry).Sites core origin site ∧
      core.profileMemberDeclaration subject site = .ok member) (memberEntries pair.2) members ∧
    core.profileDeclaration reference site members = .ok declaration

structure LocatedProfiles (profiles : Node) (declarations : List core.ProfileDeclaration) :
    Prop where
  entries : List.Forall₂ (DeclaresProfile core origin) profiles.pairs declarations
  distinct : ((profiles.pairs.flatMap profilePlaces).map Place.path).Nodup
  names : (profiles.pairs.map fun pair => ascii "@" ++ pair.1.scalar).Nodup

/-- A line and a column between 1 and 2^32 - 1. -/
def SourceMark.InRange (mark : SourceMark) : Prop :=
  (1 ≤ mark.line.toNat ∧ mark.line.toNat ≤ UInt32.size - 1) ∧
    1 ≤ mark.column.toNat ∧ mark.column.toNat ≤ UInt32.size - 1

end PkgsourceYaml
