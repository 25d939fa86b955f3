import PkgsourceYaml.Proof.Agreement

/-!
# Two runs of the grammars

Every decoder of the two grammars ends alike over matched trees, and so do the grammars, for every
order in which the arguments of a recipe are evaluated.
-/

namespace PkgsourceYaml

open Throwing

variable {core : Core} {context context' : Context} (link : Correspondence core context context')
  {node node' : Node}

/-! ### Programs, releases and actions -/

theorem agrees_releaseValue (h : Matched link.Mark node node') (path : Bytes) :
    Agrees link.Thrown Eq (releaseValue context node path) (releaseValue context' node' path) := by
  unfold releaseValue
  apply (agrees_scalarValue link h path).bind_same
  intro text
  apply Agrees.ite Iff.rfl (fun _ => agrees_fail link _ _ h.mark _)
  intro _
  apply Agrees.ite Iff.rfl (fun _ => agrees_fail link _ _ h.mark _)
  intro _
  exact Agrees.pure rfl

theorem agrees_actionValue (h : link.Mark node.mark node'.mark) (text path : Bytes) :
    Agrees link.Thrown Eq (actionValue context text path node)
      (actionValue context' text path node') := by
  unfold actionValue
  apply Agrees.ite Iff.rfl (fun _ => Agrees.pure rfl)
  intro _
  apply Agrees.ite Iff.rfl (fun _ => Agrees.pure rfl)
  intro _
  apply Agrees.ite Iff.rfl (fun _ => Agrees.pure rfl)
  intro _
  apply Agrees.ite Iff.rfl (fun _ => Agrees.pure rfl)
  intro _
  exact agrees_fail link _ _ h _

theorem agrees_programValue (h : Matched link.Mark node node') (path : Bytes) :
    Agrees link.Thrown Eq (programValue core context node path)
      (programValue core context' node' path) := by
  unfold programValue
  apply (agrees_allowKeys link h path _).bind
  intro _ _ _ _ hkind
  apply (agrees_requiredKey link h hkind _ _).bind
  intro language language' _ _ hlanguage
  apply (agrees_requiredKey link h hkind _ _).bind
  intro script script' _ _ hscript
  apply (agrees_scalarValue link hlanguage _).bind_same
  intro text
  apply Agrees.ite Iff.rfl (fun _ => agrees_fail link _ _ hlanguage.mark _)
  intro _
  apply (agrees_scalarValue link hscript _).bind_same
  intro material
  exact agrees_semanticValue link hscript.mark _ (link.same _)

/-! ### Requirements -/

theorem agrees_requirementValue (h : Matched link.Mark node node') (scope : core.RequirementScope)
    (path : Bytes) :
    Agrees link.Thrown link.Requirement (requirementValue core context scope path node)
      (requirementValue core context' scope path node') := by
  unfold requirementValue
  apply (agrees_subjectValue link h path).bind_same
  intro subject
  refine (agrees_propagate link (agrees_provenance link h.mark path)).bind ?_
  intro site site' _ _ hsite
  exact agrees_propagate link (link.requirement scope subject site site' hsite)

theorem agrees_requirementSequence (h : Matched link.Mark node node') (path : Bytes)
    (scope : Except CoreError core.RequirementScope) :
    Agrees link.Thrown (List.Forall₂ link.Requirement)
      (requirementSequence core context node path scope)
      (requirementSequence core context' node' path scope) := by
  unfold requirementSequence
  apply (agrees_propagate link (link.same scope)).bind_same
  intro scope'
  apply (agrees_sequenceValue link h path).bind
  intro entries entries' _ _ hentries
  exact agrees_eachItem link (fun itemPath _ _ hentry =>
    agrees_requirementValue link hentry scope' itemPath) hentries 0

theorem agrees_scopeRequirements (h : Matched link.Mark node node') (hkind : node.kind = .mapping)
    (key path : Bytes) (scope : Except CoreError core.RequirementScope) :
    Agrees link.Thrown (List.Forall₂ link.Requirement)
      (scopeRequirements core context node key path scope)
      (scopeRequirements core context' node' key path scope) := by
  unfold scopeRequirements
  refine agrees_findKey_bind link h hkind key ?_ fun entries entries' hentries => ?_
  · exact Agrees.pure List.Forall₂.nil
  exact agrees_requirementSequence link hentries _ scope

theorem agrees_lifecycleRequirements (h : Matched link.Mark node node')
    (hkind : node.kind = .mapping) (path : Bytes) :
    Agrees link.Thrown (List.Forall₂ link.Requirement)
      (requirementsValue.lifecycleRequirements core context node path)
      (requirementsValue.lifecycleRequirements core context' node' path) := by
  unfold requirementsValue.lifecycleRequirements
  refine agrees_findKey_bind link h hkind _ ?_ fun lifecycle lifecycle' hlifecycle => ?_
  · exact Agrees.pure List.Forall₂.nil
  apply agrees_requireKind_bind link hlifecycle .mapping _ _
  intro hlifecycleKind
  refine Agrees.bind (agrees_eachPair link (Q := List.Forall₂ link.Requirement) hlifecycle
    hlifecycleKind ?_) fun groups groups' _ _ hgroups => Agrees.pure (List.rel_flatten hgroups)
  intro key key' subjects subjects' hkey hsubjects
  rw [hkey.scalar]
  apply (agrees_actionValue link hkey.mark _ _).bind_same
  intro action
  exact agrees_requirementSequence link hsubjects _ _

theorem agrees_requirementsValue (h : Matched link.Mark node node') (path : Bytes) :
    Agrees link.Thrown (List.Forall₂ link.Requirement) (requirementsValue core context node path)
      (requirementsValue core context' node' path) := by
  unfold requirementsValue
  apply (agrees_allowKeys link h path _).bind
  intro _ _ _ _ hkind
  apply (agrees_scopeRequirements link h hkind _ path _).bind
  intro _ _ _ _ hbuild
  apply (agrees_scopeRequirements link h hkind _ path _).bind
  intro _ _ _ _ hrun
  apply (agrees_scopeRequirements link h hkind _ path _).bind
  intro _ _ _ _ hcheck
  apply (agrees_lifecycleRequirements link h hkind path).bind
  intro _ _ _ _ hlifecycle
  exact Agrees.pure (List.rel_append (List.rel_append (List.rel_append hbuild hrun) hcheck)
    hlifecycle)

theorem agrees_lifecycleValue (h : Matched link.Mark node node') (path : Bytes) :
    Agrees link.Thrown Eq (lifecycleValue core context node path)
      (lifecycleValue core context' node' path) := by
  unfold lifecycleValue
  apply agrees_requireKind_bind link h .mapping path path
  intro hkind
  rw [← List.forall₂_eq_eq_eq]
  refine agrees_eachPair link h hkind fun key key' programNode programNode' hkey hprogram => ?_
  rw [hkey.scalar]
  apply (agrees_actionValue link hkey.mark _ _).bind_same
  intro action
  apply (agrees_programValue link hprogram _).bind_same
  intro program
  exact agrees_propagate link (link.same _)

/-! ### Architectures and sources -/

theorem agrees_architectureSequence (h : Matched link.Mark node node') (path : Bytes) :
    Agrees link.Thrown Eq (architectureSequence core context node path)
      (architectureSequence core context' node' path) := by
  unfold architectureSequence
  apply (agrees_sequenceValue link h path).bind
  intro entries entries' _ _ hentries
  rw [← List.forall₂_eq_eq_eq]
  refine agrees_eachItem link (fun itemPath entry entry' hentry => ?_) hentries 0
  apply (agrees_scalarValue link hentry itemPath).bind_same
  intro name
  exact agrees_semanticValue link hentry.mark _ (link.same _)

theorem agrees_architectureList (h : Matched link.Mark node node') (hkind : node.kind = .mapping)
    (key path : Bytes) :
    Agrees link.Thrown Eq (architectureList core context node key path)
      (architectureList core context' node' key path) := by
  unfold architectureList
  refine agrees_findKey_bind link h hkind key ?_ fun entries entries' hentries => ?_
  · exact Agrees.pure rfl
  exact agrees_architectureSequence link hentries path

theorem agrees_architecturesValue {found found' : Option Node}
    (h : Option.Rel (Matched link.Mark) found found') :
    Agrees link.Thrown Eq (architecturesValue core context found)
      (architecturesValue core context' found') := by
  unfold architecturesValue
  cases h with
  | none => exact agrees_propagate link (link.same _)
  | some h =>
      apply (agrees_allowKeys link h _ _).bind
      intro _ _ _ _ hkind
      apply (agrees_architectureList link h hkind _ _).bind_same
      intro build
      apply (agrees_architectureList link h hkind _ _).bind_same
      intro target
      exact agrees_semanticValue link h.mark _ (link.same _)

theorem agrees_unpackValue (h : Matched link.Mark node node') (hkind : node.kind = .mapping)
    (path : Bytes) :
    Agrees link.Thrown Eq (unpackValue context node path) (unpackValue context' node' path) := by
  unfold unpackValue
  refine agrees_findKey_bind link h hkind _ ?_ fun unpack unpack' hunpack => ?_
  · exact Agrees.pure rfl
  apply (agrees_scalarValue link hunpack _).bind_same
  intro value
  apply Agrees.ite Iff.rfl (fun _ => agrees_fail link _ _ hunpack.mark _)
  intro _
  exact Agrees.pure rfl

theorem agrees_located (h : Matched link.Mark node node') (hkind : node.kind = .mapping)
    {locator locator' : Node} (hlocator : Matched link.Mark locator locator') (path key : Bytes)
    (construct : Bytes → Bytes → core.Digest → SourceUnpackKind →
      Except CoreError core.SourceInput) :
    Agrees link.Thrown Eq (sourceValue.located core context path node locator key construct)
      (sourceValue.located core context' path node' locator' key construct) := by
  unfold sourceValue.located
  apply (agrees_requiredKey link h hkind _ _).bind
  intro nameNode nameNode' _ _ hname
  apply (agrees_requiredKey link h hkind _ _).bind
  intro digestNode digestNode' _ _ hdigest
  apply (agrees_unpackValue link h hkind path).bind_same
  intro unpack
  apply (agrees_scalarValue link hname _).bind_same
  intro name
  apply (agrees_scalarValue link hdigest _).bind_same
  intro hash
  apply (agrees_semanticValue link hdigest.mark _ (link.same _)).bind_same
  intro content
  apply (agrees_scalarValue link hlocator _).bind_same
  intro text
  exact agrees_semanticValue link h.mark _ (link.same _)

theorem agrees_sourceValue (h : Matched link.Mark node node') (path : Bytes) :
    Agrees link.Thrown Eq (sourceValue core context path node)
      (sourceValue core context' path node') := by
  unfold sourceValue
  apply (agrees_allowKeys link h path _).bind
  intro _ _ _ _ hkind
  apply (agrees_findKey link h hkind _).bind
  intro url url' _ _ hurl
  apply (agrees_findKey link h hkind _).bind
  intro localPath localPath' _ _ hlocalPath
  cases hurl with
  | none =>
      cases hlocalPath with
      | none => exact agrees_fail link _ _ h.mark _
      | some hlocalPath => exact agrees_located link h hkind hlocalPath path _ _
  | some hurl =>
      cases hlocalPath with
      | none => exact agrees_located link h hkind hurl path _ _
      | some hlocalPath => exact agrees_fail link _ _ h.mark _

theorem agrees_sourcesValue (h : Matched link.Mark node node') (path : Bytes) :
    Agrees link.Thrown Eq (sourcesValue core context node path)
      (sourcesValue core context' node' path) := by
  unfold sourcesValue
  apply (agrees_sequenceValue link h path).bind
  intro entries entries' _ _ hentries
  rw [← List.forall₂_eq_eq_eq]
  exact agrees_eachItem link (fun itemPath _ _ hentry => agrees_sourceValue link hentry itemPath)
    hentries 0

/-! ### Packages -/

theorem agrees_packageReleaseValue (h : Matched link.Mark node node') :
    Agrees link.Thrown Eq (packageReleaseValue core context node)
      (packageReleaseValue core context' node') := by
  unfold packageReleaseValue
  apply (agrees_allowKeys link h _ _).bind
  intro _ _ _ _ hkind
  apply (agrees_requiredKey link h hkind _ _).bind
  intro nameNode nameNode' _ _ hname
  apply (agrees_requiredKey link h hkind _ _).bind
  intro versionNode versionNode' _ _ hversion
  apply (agrees_requiredKey link h hkind _ _).bind
  intro releaseNode releaseNode' _ _ hrelease
  apply (agrees_scalarValue link hname _).bind_same
  intro name
  apply (agrees_scalarValue link hversion _).bind_same
  intro version
  apply (agrees_releaseValue link hrelease _).bind_same
  intro release
  exact agrees_semanticValue link h.mark _ (link.same _)

theorem agrees_optionalScalar (h : Matched link.Mark node node') (hkind : node.kind = .mapping)
    (key path : Bytes) :
    Agrees link.Thrown Eq (optionalScalar context node key path)
      (optionalScalar context' node' key path) := by
  unfold optionalScalar
  refine agrees_findKey_bind link h hkind key ?_ fun value value' hvalue => ?_
  · exact Agrees.pure rfl
  apply (agrees_scalarValue link hvalue _).bind_same
  intro text
  exact Agrees.pure rfl

theorem agrees_packageMetadataValue (h : Matched link.Mark node node')
    (hkind : node.kind = .mapping) :
    Agrees link.Thrown Eq (packageMetadataValue core context node)
      (packageMetadataValue core context' node') := by
  unfold packageMetadataValue
  apply (agrees_requiredKey link h hkind _ _).bind
  intro summaryNode summaryNode' _ _ hsummary
  apply (agrees_requiredKey link h hkind _ _).bind
  intro licenses licenses' _ _ hlicenses
  apply (agrees_scalarValue link hsummary _).bind_same
  intro summary
  apply (agrees_optionalScalar link h hkind _ _).bind_same
  intro description
  apply (agrees_optionalScalar link h hkind _ _).bind_same
  intro homepage
  apply (agrees_sequenceValue link hlicenses _).bind
  intro entries entries' _ _ hentries
  refine Agrees.bind (Q := Eq) ?_ ?_
  · rw [← List.forall₂_eq_eq_eq]
    exact agrees_eachItem link (fun itemPath _ _ hentry => agrees_scalarValue link hentry itemPath)
      hentries 0
  · rintro texts _ - - rfl
    exact agrees_semanticValue link h.mark _ (link.same _)

/-! ### Recipes -/

theorem agrees_checkValue (h : Matched link.Mark node node') (hkind : node.kind = .mapping) :
    Agrees link.Thrown Eq (checkValue core context node) (checkValue core context' node') := by
  unfold checkValue
  refine agrees_findKey_bind link h hkind _ ?_ fun value value' hvalue => ?_
  · exact Agrees.pure rfl
  apply (agrees_programValue link hvalue _).bind_same
  intro program
  exact Agrees.pure rfl

theorem agrees_lifecyclePrograms (h : Matched link.Mark node node')
    (hkind : node.kind = .mapping) :
    Agrees link.Thrown Eq (lifecyclePrograms core context node)
      (lifecyclePrograms core context' node') := by
  unfold lifecyclePrograms
  refine agrees_findKey_bind link h hkind _ ?_ fun value value' hvalue => ?_
  · exact Agrees.pure rfl
  exact agrees_lifecycleValue link hvalue _

/-- Sections found under the same keys of matched roots. -/
structure MatchedSections (Mark : SourceMark → SourceMark → Prop)
    (sections sections' : RecipeSections) : Prop where
  root : Matched Mark sections.root sections'.root
  rootKind : sections.root.kind = .mapping
  package : Matched Mark sections.package sections'.package
  packageKind : sections.package.kind = .mapping
  requirements : Matched Mark sections.requirements sections'.requirements
  sources : Matched Mark sections.sources sections'.sources
  build : Matched Mark sections.build sections'.build

theorem agrees_recipeSections (h : Matched link.Mark node node') :
    Agrees link.Thrown
      (fun found found' => MatchedSections link.Mark found.1 found'.1 ∧ found.2 = found'.2)
      (recipeSections core context node) (recipeSections core context' node') := by
  unfold recipeSections
  apply (agrees_allowKeys link h _ _).bind
  intro _ _ _ _ hkind
  apply (agrees_requireFormat link h hkind _).bind
  intro _ _ _ _ _
  apply (agrees_requiredKey link h hkind _ _).bind
  intro package package' _ _ hpackage
  apply agrees_requireKind_bind link hpackage .mapping _ _
  intro hpackageKind
  apply (agrees_requiredKey link h hkind _ _).bind
  intro _ _ _ _ hrequirements
  apply (agrees_requiredKey link h hkind _ _).bind
  intro _ _ _ _ hsources
  apply (agrees_requiredKey link h hkind _ _).bind
  intro _ _ _ _ hbuild
  apply (agrees_checkValue link h hkind).bind_same
  intro check
  apply (agrees_lifecyclePrograms link h hkind).bind_same
  intro lifecycle
  exact Agrees.pure ⟨⟨h, hkind, hpackage, hpackageKind, hrequirements, hsources, hbuild⟩, rfl⟩

/-- How the arguments of the `recipe_declaration` call are compared. -/
def Correspondence.Argument : (argument : RecipeArgument) → argument.Value core →
    argument.Value core → Prop
  | .requirements => List.Forall₂ link.Requirement
  | .provenance => link.Site
  | .release | .metadata | .sources | .build | .architectures => Eq

theorem agrees_evaluate {sections sections' : RecipeSections}
    (h : MatchedSections link.Mark sections sections') (argument : RecipeArgument) :
    Agrees link.Thrown (link.Argument argument) (argument.evaluate core context sections)
      (argument.evaluate core context' sections') := by
  cases argument with
  | release => exact agrees_packageReleaseValue link h.package
  | metadata => exact agrees_packageMetadataValue link h.package h.packageKind
  | sources => exact agrees_sourcesValue link h.sources _
  | build => exact agrees_programValue link h.build _
  | requirements => exact agrees_requirementsValue link h.requirements _
  | architectures =>
      apply (agrees_findKey link h.root h.rootKind _).bind
      intro found found' _ _ hfound
      exact agrees_architecturesValue link hfound
  | provenance => exact agrees_propagate link (agrees_provenance link h.root.mark _)

theorem agrees_recipeValue (h : Matched link.Mark node node') (order : EvaluationOrder) :
    Agrees link.Thrown link.Recipe (recipeValue core context order node)
      (recipeValue core context' order node') := by
  unfold recipeValue
  refine (agrees_recipeSections link h).bind ?_
  rintro ⟨sections, lifecycle, check⟩ ⟨sections', _, _⟩ - - ⟨hsections, hrest⟩
  obtain ⟨rfl, rfl⟩ := Prod.mk.inj hrest
  refine Unsequenced.agrees_call (Q := link.Argument) (agrees_evaluate link hsections) ?_
  intro value value' hvalues
  apply agrees_propagate link
  rw [← hvalues .release, ← hvalues .metadata, ← hvalues .sources, ← hvalues .build,
    ← hvalues .architectures]
  exact link.recipe _ _ _ _ _ _ _ _ _ _ _ (hvalues .requirements) (hvalues .provenance)

/-! ### Profiles -/

theorem agrees_memberValue (h : Matched link.Mark node node') (path : Bytes) :
    Agrees link.Thrown link.Member (memberValue core context path node)
      (memberValue core context' path node') := by
  unfold memberValue
  apply (agrees_subjectValue link h path).bind_same
  intro subject
  refine (agrees_propagate link (agrees_provenance link h.mark path)).bind ?_
  intro site site' _ _ hsite
  exact agrees_propagate link (link.member subject site site' hsite)

theorem agrees_profileValue {key key' : Node} (hkey : Matched link.Mark key key')
    (h : Matched link.Mark node node') :
    Agrees link.Thrown link.Profile (profileValue core context key node)
      (profileValue core context' key' node') := by
  unfold profileValue
  rw [hkey.scalar]
  apply (agrees_semanticValue link hkey.mark _ (link.same _)).bind_same
  intro reference
  refine (agrees_semanticValue link hkey.mark _ (agrees_provenance link hkey.mark _)).bind ?_
  intro site site' _ _ hsite
  apply (agrees_allowKeys link h _ _).bind
  intro _ _ _ _ hkind
  apply (agrees_requiredKey link h hkind _ _).bind
  intro list list' _ _ hlist
  apply (agrees_sequenceValue link hlist _).bind
  intro entries entries' _ _ hentries
  refine Agrees.bind (agrees_eachItem link (fun itemPath _ _ hentry =>
    agrees_memberValue link hentry itemPath) hentries 0) ?_
  intro members members' _ _ hmembers
  exact agrees_semanticValue link hkey.mark _ (link.profile _ _ _ _ _ hsite hmembers)

theorem agrees_profilesValue (h : Matched link.Mark node node') :
    Agrees link.Thrown (List.Forall₂ link.Profile) (profilesValue core context node)
      (profilesValue core context' node') := by
  unfold profilesValue
  apply (agrees_allowKeys link h _ _).bind
  intro _ _ _ _ hkind
  apply (agrees_requireFormat link h hkind _).bind
  intro _ _ _ _ _
  apply (agrees_requiredKey link h hkind _ _).bind
  intro profiles profiles' _ _ hprofiles
  apply agrees_requireKind_bind link hprofiles .mapping _ _
  intro hprofilesKind
  exact agrees_eachPair link hprofiles hprofilesKind fun _ _ _ _ hkey hdefinition =>
    agrees_profileValue link hkey hdefinition

end PkgsourceYaml
