import PkgsourceYaml.Proof.Plan

/-!
# What libpkgsource can change

The grammars are walked once more, over a `libpkgsource` and over the one that keeps everything. A
parser ends as the plan says, with the same diagnosis or with the interpreted plan, unless it ends
in an error that `libpkgsource` returned.
-/

namespace PkgsourceYaml

open Interpretation Throwing

variable {core : Core} {context : Context} {node : Node}

/-- The value is what the plan is interpreted as. -/
abbrev Interprets {π α : Type} (interpret : π → Except CoreError α) (plan : π) (value : α) : Prop :=
  interpret plan = .ok value

/-! ### Calls -/

section

variable {π α : Type} {U : π → α → Prop} {plan : π} {call : Except CoreError α}

theorem realizes_semanticValue (path : Bytes) (hvalue : ∀ value, call = .ok value → U plan value)
    (hrejected : ∀ failed, call = .error failed → core.Rejects failed) :
    Realizes (CoreRejection core context) U (semanticValue context path node (.ok plan))
      (semanticValue context path node call) := by
  cases hcall : call with
  | ok value => exact .returned (hvalue value hcall)
  | error failed => exact .stopped (.translated path node.mark failed (hrejected failed hcall))

theorem realizes_propagate (hvalue : ∀ value, call = .ok value → U plan value)
    (hrejected : ∀ failed, call = .error failed → core.Rejects failed) :
    Realizes (CoreRejection core context) U (propagate (.ok plan)) (propagate call) := by
  cases hcall : call with
  | ok value => exact .returned (hvalue value hcall)
  | error failed => exact .stopped (.escaped failed (hrejected failed hcall))

end

theorem rejects_packageSubjectOf {name : Bytes} {failed : CoreError}
    (h : core.packageSubjectOf name = .error failed) : core.Rejects failed := by
  rcases bind_eq_error.mp h with href | ⟨reference, -, hsubject⟩
  · exact .packageReference name href
  · exact .packageSubject reference hsubject

theorem rejects_profileSubjectOf {name : Bytes} {failed : CoreError}
    (h : core.profileSubjectOf name = .error failed) : core.Rejects failed := by
  rcases bind_eq_error.mp h with href | ⟨reference, -, hsubject⟩
  · exact .profileReference name href
  · exact .profileSubject reference hsubject

theorem rejects_packageReleaseOf {name version : Bytes} {release : UInt32} {failed : CoreError}
    (h : core.packageReleaseOf name version release = .error failed) : core.Rejects failed := by
  rcases bind_eq_error.mp h with href | ⟨reference, -, hrelease⟩
  · exact .packageReference name href
  · exact .release reference version release hrelease

theorem realizes_provenance (path : Bytes) :
    Realizes (CoreRejection core context) (Interprets (interpretSite core))
      (propagate (provenance Core.recording context path node))
      (propagate (provenance core context path node)) :=
  realizes_propagate (fun _ hsite => hsite) fun _ hfailed => .provenance _ _ _ _ hfailed

/-! ### Loops -/

theorem realizes_eachItem {π α : Type} {U : π → α → Prop} {Stopped : Exception → Prop}
    {path : Bytes} {plans : Bytes → Node → Except Exception π}
    {decode : Bytes → Node → Except Exception α}
    (hdecode : ∀ itemPath entry, Realizes Stopped U (plans itemPath entry) (decode itemPath entry))
    (entries : List Node) (index : Nat) :
    Realizes Stopped (List.Forall₂ U) (eachItem path plans entries index)
      (eachItem path decode entries index) := by
  induction entries generalizing index with
  | nil => exact Realizes.pure List.Forall₂.nil
  | cons entry rest ih =>
      rw [eachItem, eachItem]
      apply (hdecode _ entry).bind
      intro plan value hvalue
      apply (ih (index + 1)).bind
      intro plans values hvalues
      exact Realizes.pure (List.Forall₂.cons hvalue hvalues)

theorem realizes_eachPairLoop {π α : Type} {U : π → α → Prop} {Stopped : Exception → Prop}
    {plans : Node → Node → Except Exception π} {decode : Node → Node → Except Exception α}
    (hdecode : ∀ key value, Realizes Stopped U (plans key value) (decode key value))
    (list : List Node) :
    Realizes Stopped (List.Forall₂ U) (eachPair.loop context plans list)
      (eachPair.loop context decode list) := by
  induction list using List.twoStepInduction with
  | nil => exact Realizes.pure List.Forall₂.nil
  | singleton last => exact Realizes.throw
  | cons_cons key value rest ih _ =>
      rw [eachPair.loop, eachPair.loop]
      apply Realizes.bind_same
      intro _
      apply (hdecode key value).bind
      intro plan decoded hdecoded
      refine ih.bind fun plans others hothers => ?_
      exact Realizes.pure (List.Forall₂.cons hdecoded hothers)

theorem realizes_eachPair {π α : Type} {U : π → α → Prop} {Stopped : Exception → Prop}
    {plans : Node → Node → Except Exception π} {decode : Node → Node → Except Exception α}
    (hdecode : ∀ key value, Realizes Stopped U (plans key value) (decode key value))
    (mapping : Node) :
    Realizes Stopped (List.Forall₂ U) (eachPair context mapping plans)
      (eachPair context mapping decode) := by
  unfold eachPair
  apply Realizes.bind_same
  intro _
  exact realizes_eachPairLoop hdecode mapping.children

/-! ### Sections -/

theorem realizes_subjectValue (node : Node) (path : Bytes) :
    Realizes (CoreRejection core context) (Interprets (interpretSubject core))
      (subjectValue Core.recording context node path) (subjectValue core context node path) := by
  unfold subjectValue
  apply Realizes.bind_same
  intro _
  apply Realizes.bind_same
  intro package
  apply Realizes.bind_same
  intro profile
  cases package with
  | none =>
      cases profile with
      | none => exact Realizes.throw
      | some profile =>
          apply Realizes.bind_same
          intro name
          exact realizes_semanticValue _ (fun _ hsubject => hsubject) fun _ =>
            rejects_profileSubjectOf
  | some package =>
      cases profile with
      | none =>
          apply Realizes.bind_same
          intro name
          exact realizes_semanticValue _ (fun _ hsubject => hsubject) fun _ =>
            rejects_packageSubjectOf
      | some profile => exact Realizes.throw

theorem realizes_requirementValue {name : ScopeName} {scope : core.RequirementScope}
    (hscope : name.scope core = .ok scope) (path : Bytes) (entry : Node) :
    Realizes (CoreRejection core context) (Interprets (interpretRequirement core))
      (requirementValue Core.recording context name path entry)
      (requirementValue core context scope path entry) := by
  unfold requirementValue
  apply (realizes_subjectValue entry path).bind
  intro subjectPlan subject hsubject
  apply (realizes_provenance path).bind
  intro sitePlan site hsite
  refine realizes_propagate (fun declaration hdeclared => ?_) fun _ hfailed =>
    .requirement _ _ _ hfailed
  simp only [Interprets, interpretRequirement, bind_eq_ok]
  exact ⟨scope, hscope, subject, hsubject, site, hsite, hdeclared⟩

theorem realizes_requirementSequence (node : Node) (path : Bytes) (name : ScopeName) :
    Realizes (CoreRejection core context) (Requires core)
      (requirementSequence Core.recording context node path (name.scope Core.recording))
      (requirementSequence core context node path (name.scope core)) := by
  unfold requirementSequence
  rw [scope_recording]
  refine (@realizes_propagate core context _ _ (fun recorded scope => recorded = name ∧
    name.scope core = .ok scope) name _ (fun scope hscope => ⟨rfl, hscope⟩) fun _ hfailed =>
      .scope name hfailed).bind fun recorded scope hscope => ?_
  obtain ⟨rfl, hscope⟩ := hscope
  apply Realizes.bind_same
  intro entries
  exact realizes_eachItem (fun itemPath entry => realizes_requirementValue hscope itemPath entry)
    entries 0

theorem realizes_scopeRequirements (node : Node) (key path : Bytes) (name : ScopeName) :
    Realizes (CoreRejection core context) (Requires core)
      (scopeRequirements Core.recording context node key path (name.scope Core.recording))
      (scopeRequirements core context node key path (name.scope core)) := by
  unfold scopeRequirements
  apply Realizes.bind_same
  intro found
  cases found with
  | none => exact Realizes.pure List.Forall₂.nil
  | some entries => exact realizes_requirementSequence entries _ name

theorem realizes_lifecycleRequirements (node : Node) (path : Bytes) :
    Realizes (CoreRejection core context) (Requires core)
      (requirementsValue.lifecycleRequirements Core.recording context node path)
      (requirementsValue.lifecycleRequirements core context node path) := by
  unfold requirementsValue.lifecycleRequirements
  apply Realizes.bind_same
  intro found
  cases found with
  | none => exact Realizes.pure List.Forall₂.nil
  | some lifecycle =>
      apply Realizes.bind_same
      intro mapping
      refine Realizes.bind (realizes_eachPair (fun key subjects => ?_) mapping)
        fun groupPlans groups hgroups => Realizes.pure (List.rel_flatten hgroups)
      apply Realizes.bind_same
      intro action
      exact realizes_requirementSequence subjects _ (.lifecycle action)

theorem realizes_requirementsValue (node : Node) (path : Bytes) :
    Realizes (CoreRejection core context) (Requires core)
      (requirementsValue Core.recording context node path)
      (requirementsValue core context node path) := by
  unfold requirementsValue
  apply Realizes.bind_same
  intro _
  apply (realizes_scopeRequirements node _ path .build).bind
  intro _ _ hbuild
  apply (realizes_scopeRequirements node _ path .run).bind
  intro _ _ hrun
  apply (realizes_scopeRequirements node _ path .check).bind
  intro _ _ hcheck
  apply (realizes_lifecycleRequirements node path).bind
  intro _ _ hlifecycle
  exact Realizes.pure
    (List.rel_append (List.rel_append (List.rel_append hbuild hrun) hcheck) hlifecycle)

theorem realizes_programValue (node : Node) (path : Bytes) :
    Realizes (CoreRejection core context) (Interprets (interpretProgram core))
      (programValue Core.recording context node path) (programValue core context node path) := by
  unfold programValue
  apply Realizes.bind_same
  intro _
  apply Realizes.bind_same
  intro languageNode
  apply Realizes.bind_same
  intro scriptNode
  apply Realizes.bind_same
  intro language
  refine Realizes.ite Realizes.throw ?_
  apply Realizes.bind_same
  intro material
  exact realizes_semanticValue _ (fun _ hprogram => hprogram) fun _ hfailed =>
    .program _ _ hfailed

theorem realizes_lifecycleValue (node : Node) (path : Bytes) :
    Realizes (CoreRejection core context)
      (List.Forall₂ (Interprets (interpretLifecycleProgram core)))
      (lifecycleValue Core.recording context node path)
      (lifecycleValue core context node path) := by
  unfold lifecycleValue
  apply Realizes.bind_same
  intro mapping
  refine realizes_eachPair (fun key programNode => ?_) mapping
  apply Realizes.bind_same
  intro action
  apply (realizes_programValue programNode _).bind
  intro plan program hprogram
  refine realizes_propagate (fun lifecycleProgram hlifecycle => ?_) fun _ hfailed =>
    .lifecycle _ _ hfailed
  simp only [Interprets, interpretLifecycleProgram, bind_eq_ok]
  exact ⟨program, hprogram, hlifecycle⟩

theorem realizes_architectureList (node : Node) (key path : Bytes) :
    Realizes (CoreRejection core context) (List.Forall₂ (Interprets (interpretArchitecture core)))
      (architectureList Core.recording context node key path)
      (architectureList core context node key path) := by
  unfold architectureList
  apply Realizes.bind_same
  intro found
  cases found with
  | none => exact Realizes.pure List.Forall₂.nil
  | some entries =>
      refine Realizes.bind_same _ fun list => realizes_eachItem (fun itemPath entry => ?_) list 0
      apply Realizes.bind_same
      intro name
      exact realizes_semanticValue _ (fun _ hreference => hreference) fun _ hfailed =>
        .architectureReference _ hfailed

theorem realizes_architecturesValue (found : Option Node) :
    Realizes (CoreRejection core context) (Interprets (interpretArchitectures core))
      (architecturesValue Core.recording context found)
      (architecturesValue core context found) := by
  cases found with
  | none =>
      exact realizes_propagate (fun _ harchitectures => harchitectures) fun _ hfailed =>
        .architectures _ _ hfailed
  | some node =>
      apply Realizes.bind_same
      intro _
      apply (realizes_architectureList node _ _).bind
      intro buildPlans build hbuild
      apply (realizes_architectureList node _ _).bind
      intro targetPlans target htarget
      refine realizes_semanticValue _ (fun architectures harchitectures => ?_) fun _ hfailed =>
        .architectures _ _ hfailed
      simp only [Interprets, interpretArchitectures, bind_eq_ok, mapM_eq_ok_iff]
      exact ⟨build, hbuild, target, htarget, harchitectures⟩

/-- The rest of a source, whichever of the two locators it has. -/
theorem realizes_located {entry : Node} {path : Bytes} (locatorNode : Node) (key : Bytes)
    {planned : Bytes → Bytes → Core.recording.Digest → SourceUnpackKind →
      Core.recording.SourceInput}
    {construct : Bytes → Bytes → core.Digest → SourceUnpackKind → Except CoreError core.SourceInput}
    (hplanned : ∀ locator name hash content unpack source,
      core.digest .sha256 hash = .ok content → construct locator name content unpack = .ok source →
      interpretSource core (planned locator name (.sha256, hash) unpack) = .ok source)
    (hrejected : ∀ locator name content unpack failed,
      construct locator name content unpack = .error failed → core.Rejects failed) :
    Realizes (CoreRejection core context) (Interprets (interpretSource core))
      (sourceValue.located Core.recording context path entry locatorNode key
        fun locator name content unpack => .ok (planned locator name content unpack))
      (sourceValue.located core context path entry locatorNode key construct) := by
  unfold sourceValue.located
  apply Realizes.bind_same
  intro nameNode
  apply Realizes.bind_same
  intro digestNode
  apply Realizes.bind_same
  intro unpack
  apply Realizes.bind_same
  intro name
  apply Realizes.bind_same
  intro hash
  refine Realizes.bind (@realizes_semanticValue core context digestNode _ _
    (fun recorded content => recorded = (DigestAlgorithm.sha256, hash) ∧
      core.digest .sha256 hash = .ok content) (DigestAlgorithm.sha256, hash) _ _
    (fun content hcontent => ⟨rfl, hcontent⟩) fun _ hfailed => .digest _ _ hfailed)
    fun recorded content hcontent => ?_
  obtain ⟨rfl, hcontent⟩ := hcontent
  apply Realizes.bind_same
  intro locator
  exact realizes_semanticValue _ (fun source hsource =>
    hplanned locator name hash content unpack source hcontent hsource) fun _ hfailed =>
      hrejected _ _ _ _ _ hfailed

theorem realizes_sourceValue (path : Bytes) (entry : Node) :
    Realizes (CoreRejection core context) (Interprets (interpretSource core))
      (sourceValue Core.recording context path entry) (sourceValue core context path entry) := by
  unfold sourceValue
  apply Realizes.bind_same
  intro _
  apply Realizes.bind_same
  intro url
  apply Realizes.bind_same
  intro localPath
  cases url with
  | none =>
      cases localPath with
      | none => exact Realizes.throw
      | some localPath =>
          refine realizes_located localPath _ (fun locator name hash content unpack source
            hcontent hsource => ?_) fun _ _ _ _ _ hfailed => .localSource _ _ _ _ hfailed
          exact bind_eq_ok.mpr ⟨content, hcontent, hsource⟩
  | some url =>
      cases localPath with
      | none =>
          refine realizes_located url _ (fun locator name hash content unpack source
            hcontent hsource => ?_) fun _ _ _ _ _ hfailed => .remoteSource _ _ _ _ hfailed
          exact bind_eq_ok.mpr ⟨content, hcontent, hsource⟩
      | some localPath => exact Realizes.throw

theorem realizes_sourcesValue (node : Node) (path : Bytes) :
    Realizes (CoreRejection core context) (List.Forall₂ (Interprets (interpretSource core)))
      (sourcesValue Core.recording context node path) (sourcesValue core context node path) := by
  unfold sourcesValue
  apply Realizes.bind_same
  intro entries
  exact realizes_eachItem (fun itemPath entry => realizes_sourceValue itemPath entry) entries 0

theorem realizes_packageReleaseValue (node : Node) :
    Realizes (CoreRejection core context) (Interprets (interpretRelease core))
      (packageReleaseValue Core.recording context node)
      (packageReleaseValue core context node) := by
  unfold packageReleaseValue
  apply Realizes.bind_same
  intro _
  apply Realizes.bind_same
  intro nameNode
  apply Realizes.bind_same
  intro versionNode
  apply Realizes.bind_same
  intro releaseNode
  apply Realizes.bind_same
  intro name
  apply Realizes.bind_same
  intro version
  apply Realizes.bind_same
  intro release
  exact realizes_semanticValue _ (fun _ hrelease => hrelease) fun _ => rejects_packageReleaseOf

theorem realizes_packageMetadataValue (node : Node) :
    Realizes (CoreRejection core context) (Interprets (interpretMetadata core))
      (packageMetadataValue Core.recording context node)
      (packageMetadataValue core context node) := by
  unfold packageMetadataValue
  apply Realizes.bind_same
  intro summaryNode
  apply Realizes.bind_same
  intro licensesNode
  apply Realizes.bind_same
  intro summary
  apply Realizes.bind_same
  intro description
  apply Realizes.bind_same
  intro homepage
  apply Realizes.bind_same
  intro licenseNodes
  apply Realizes.bind_same
  intro licenses
  exact realizes_semanticValue _ (fun _ hmetadata => hmetadata) fun _ hfailed =>
    .metadata _ _ _ _ hfailed

/-! ### Recipes -/

theorem realizes_checkValue (root : Node) :
    Realizes (CoreRejection core context) (Interprets (interpretCheck core))
      (checkValue Core.recording context root) (checkValue core context root) := by
  unfold checkValue
  apply Realizes.bind_same
  intro found
  cases found with
  | none => exact Realizes.pure rfl
  | some node =>
      refine (realizes_programValue node _).bind fun plan program hprogram => Realizes.pure ?_
      simp only [Interprets, interpretCheck, bind_eq_ok, pure_eq_ok]
      exact ⟨program, hprogram, rfl⟩

theorem realizes_lifecyclePrograms (root : Node) :
    Realizes (CoreRejection core context)
      (List.Forall₂ (Interprets (interpretLifecycleProgram core)))
      (lifecyclePrograms Core.recording context root) (lifecyclePrograms core context root) := by
  unfold lifecyclePrograms
  apply Realizes.bind_same
  intro found
  cases found with
  | none => exact Realizes.pure List.Forall₂.nil
  | some node => exact realizes_lifecycleValue node _

/-- The locals of a recipe are what the locals of its plan are interpreted as, beside the same
sections. -/
structure PlannedLocals
    (plan : RecipeSections × List Core.recording.LifecycleProgram × Option Core.recording.Program)
    (locals : RecipeSections × List core.LifecycleProgram × Option core.Program) : Prop where
  sections : plan.1 = locals.1
  lifecycle : List.Forall₂ (Interprets (interpretLifecycleProgram core)) plan.2.1 locals.2.1
  check : Interprets (interpretCheck core) plan.2.2 locals.2.2

theorem realizes_recipeSections (root : Node) :
    Realizes (CoreRejection core context) PlannedLocals (recipeSections Core.recording context root)
      (recipeSections core context root) := by
  unfold recipeSections
  apply Realizes.bind_same
  intro _
  apply Realizes.bind_same
  intro _
  apply Realizes.bind_same
  intro package
  apply Realizes.bind_same
  intro package
  apply Realizes.bind_same
  intro requirements
  apply Realizes.bind_same
  intro sources
  apply Realizes.bind_same
  intro build
  apply (realizes_checkValue root).bind
  intro checkPlan check hcheck
  apply (realizes_lifecyclePrograms root).bind
  intro plans programs hprograms
  exact Realizes.pure ⟨rfl, hprograms, hcheck⟩

/-- How an argument of the `recipe_declaration` call is planned. -/
def PlannedArgument : (argument : RecipeArgument) → argument.Value Core.recording →
    argument.Value core → Prop
  | .release => Interprets (interpretRelease core)
  | .metadata => Interprets (interpretMetadata core)
  | .sources => List.Forall₂ (Interprets (interpretSource core))
  | .build => Interprets (interpretProgram core)
  | .requirements => Requires core
  | .architectures => Interprets (interpretArchitectures core)
  | .provenance => Interprets (interpretSite core)

theorem realizes_evaluate (sections : RecipeSections) (argument : RecipeArgument) :
    Realizes (CoreRejection core context) (PlannedArgument argument)
      (argument.evaluate Core.recording context sections)
      (argument.evaluate core context sections) := by
  cases argument with
  | release => exact realizes_packageReleaseValue sections.package
  | metadata => exact realizes_packageMetadataValue sections.package
  | sources => exact realizes_sourcesValue sections.sources _
  | build => exact realizes_programValue sections.build _
  | requirements => exact realizes_requirementsValue sections.requirements _
  | architectures =>
      exact Realizes.bind_same _ fun found => realizes_architecturesValue found
  | provenance => exact realizes_provenance _

theorem realizes_recipeValue (order : EvaluationOrder) (root : Node) :
    Realizes (CoreRejection core context) (Interprets (interpretRecipe core))
      (recipeValue Core.recording context order root) (recipeValue core context order root) := by
  unfold recipeValue
  apply (realizes_recipeSections root).bind
  intro planned locals hlocals
  obtain ⟨sections, lifecyclePlans, checkPlan⟩ := planned
  obtain ⟨_, lifecycle, check⟩ := locals
  obtain rfl := hlocals.sections
  refine (Realizes.evaluateIn (realizes_evaluate sections) order.arguments).bind
    fun plans values hvalues => ?_
  have hargument := fun argument => hvalues argument (order.complete argument)
  refine realizes_propagate (fun declaration hdeclared => ?_) fun _ hfailed =>
    .recipe _ _ _ _ _ _ _ _ _ hfailed
  simp only [Interprets, interpretRecipe, bind_eq_ok]
  exact ⟨_, hargument .release, _, hargument .metadata, _,
    mapM_eq_ok_iff.mpr (hargument .sources), _, hargument .build, _,
    mapM_eq_ok_iff.mpr (hargument .requirements), _,
    mapM_eq_ok_iff.mpr hlocals.lifecycle, _, hargument .architectures, _,
    hargument .provenance, _, hlocals.check, hdeclared⟩

/-! ### Profiles -/

theorem realizes_memberValue (path : Bytes) (entry : Node) :
    Realizes (CoreRejection core context) (Interprets (interpretMember core))
      (memberValue Core.recording context path entry) (memberValue core context path entry) := by
  unfold memberValue
  apply (realizes_subjectValue entry path).bind
  intro subjectPlan subject hsubject
  apply (realizes_provenance path).bind
  intro sitePlan site hsite
  refine realizes_propagate (fun member hmember => ?_) fun _ hfailed => .member _ _ hfailed
  simp only [Interprets, interpretMember, bind_eq_ok]
  exact ⟨subject, hsubject, site, hsite, hmember⟩

theorem realizes_profileValue (key definition : Node) :
    Realizes (CoreRejection core context) (Interprets (interpretProfile core))
      (profileValue Core.recording context key definition)
      (profileValue core context key definition) := by
  unfold profileValue
  refine Realizes.bind (@realizes_semanticValue core context key _ _
    (Interprets core.profileReference) (ascii "@" ++ key.scalar) _ _
    (fun _ hreference => hreference) fun _ hfailed => .profileReference _ hfailed)
    fun name reference hreference => ?_
  refine Realizes.bind (@realizes_semanticValue core context key _ _
    (Interprets (interpretSite core)) (context.origin.document, _, key.mark.line, key.mark.column) _
    _ (fun _ hsite => hsite) fun _ hfailed => .provenance _ _ _ _ hfailed)
    fun sitePlan site hsite => ?_
  apply Realizes.bind_same
  intro _
  apply Realizes.bind_same
  intro membersNode
  apply Realizes.bind_same
  intro memberNodes
  refine Realizes.bind (realizes_eachItem (fun itemPath entry =>
    realizes_memberValue itemPath entry) memberNodes 0) fun memberPlans members hmembers => ?_
  refine realizes_semanticValue _ (fun declaration hdeclared => ?_) fun _ hfailed =>
    .profile _ _ _ hfailed
  simp only [Interprets, interpretProfile, bind_eq_ok, mapM_eq_ok_iff]
  exact ⟨reference, hreference, site, hsite, members, hmembers, hdeclared⟩

theorem realizes_profilesValue (root : Node) :
    Realizes (CoreRejection core context) (Interprets (interpretProfiles core))
      (profilesValue Core.recording context root) (profilesValue core context root) := by
  unfold profilesValue
  apply Realizes.bind_same
  intro _
  apply Realizes.bind_same
  intro _
  apply Realizes.bind_same
  intro profiles
  apply Realizes.bind_same
  intro profiles
  refine (realizes_eachPair (fun key definition => realizes_profileValue key definition)
    profiles).mono fun plans declarations hdeclarations => ?_
  exact mapM_eq_ok_iff.mpr hdeclarations

/-! ### Both parsers -/

/-- **libpkgsource adds nothing but its own rejections.** Whatever `libpkgsource` is, each parser
returns what the plan of the document is interpreted as, or ends in the very diagnosis that the
document has without it, or ends in an error that some constructor of it returns on some arguments:
as an invalid value with that error's text, or as it is. -/
theorem outcome_planned_or_rejected (core : Core) (context : Context) (order : EvaluationOrder)
    (input : Input) (limits : ParseLimits) :
    Realizes (CoreRejection core context) (Interprets (interpretRecipe core))
        (parseRecipeYaml Core.recording context order input limits)
        (parseRecipeYaml core context order input limits) ∧
      Realizes (CoreRejection core context) (Interprets (interpretProfiles core))
        (parseProfilesYaml Core.recording context input limits)
        (parseProfilesYaml core context input limits) :=
  ⟨Realizes.bind_same _ fun root => realizes_recipeValue order root,
    Realizes.bind_same _ fun root => realizes_profilesValue root⟩

end PkgsourceYaml
