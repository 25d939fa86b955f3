import PkgsourceYaml.Proof.Canonical
import PkgsourceYaml.Proof.Equivalence
import Mathlib.Algebra.Order.BigOperators.Group.List
import Mathlib.Algebra.Order.Group.Nat
import Mathlib.Data.Set.List

/-!
# Everything that is read has a normal form

Every accepted document says one content, apart from where it says it, and is the same document as
the canonical document of this content.
-/

namespace PkgsourceYaml

open Entrywise EventTree

variable {context : Context} {node root : Node}

/-! ### Written trees -/

/-- A written tree is a tree that was read, from an input of its own. -/
theorem EventTree.Written.formed {tree : EventTree} (h : tree.Written) : tree.toNode.Formed := by
  let limits : ParseLimits :=
    { maximumScalarBytes := (tree.subtrees.map fun subtree => subtree.first.value.length).sum
      maximumNodes := tree.subtrees.length
      maximumDepth := tree.depth }
  have hfits : tree.Fits limits := by
    refine ⟨Nat.le_refl _, Nat.le_refl _, fun subtree hsubtree _ => ?_⟩
    exact List.le_sum_of_mem (List.mem_map_of_mem hsubtree)
  let input : Input := .cut 0 (DocumentEvents.around tree).serialize .badAlloc
  have hroot : documentOutcome input ⟨[]⟩ limits = .ok tree.toNode :=
    documentOutcome_eq_ok_iff_strict.mpr
      ⟨Nat.zero_le _, .around tree, h.strictDocument hfits, Input.yields_cut _, rfl⟩
  exact formed_of_documentOutcome hroot

/-! ### What sections say -/

theorem SubjectContent.plan_injective : Function.Injective SubjectContent.plan := by
  intro left right h
  cases left <;> cases right <;> cases h <;> rfl

theorem exists_subject (plan : Core.recording.RequirementSubject) :
    ∃ subject : SubjectContent, subject.plan = plan := by
  cases plan with
  | inl name => exact ⟨.package name, rfl⟩
  | inr name => exact ⟨.profile name, rfl⟩

/-- Requirements that are planned alike, apart from where they stand. -/
abbrev Requested (plans plans' : List Core.recording.RequirementDeclaration) : Prop :=
  List.Forall₂ (RequirementUpTo Core.recording (SiteRelocated Core.recording)) plans plans'

theorem requested_append {first first' second second' : List Core.recording.RequirementDeclaration}
    (h : Requested first first') (h' : Requested second second') :
    Requested (first ++ second) (first' ++ second') :=
  List.rel_append h h'

/-- Sites of one path differ in nothing else than what a plan leaves open. -/
theorem siteRelocated_recording {path document document' : Bytes}
    {line line' column column' : UInt32} :
    SiteRelocated Core.recording (document, path, line, column) (document', path, line', column') :=
  ⟨path, document, line, column, document', line', column', rfl, rfl⟩

theorem exists_subjects (name : ScopeName) {plans : List Core.recording.RequirementDeclaration}
    (h : IsRequirementSequence Core.recording context name.path (name.scope Core.recording) node
      plans) :
    ∃ subjects : List SubjectContent,
      Requested plans (planRequirements context.origin name subjects) := by
  obtain ⟨scope, hscope, -, hitems⟩ := h
  obtain rfl : name = scope := Except.ok.inj ((scope_recording name).symm.trans hscope)
  have hsubjects : List.Forall₂ (fun entry plan => ∃ subject : SubjectContent,
      RequirementUpTo Core.recording (SiteRelocated Core.recording) plan
        (name, subject.plan, planSite context.origin (indexed name.path entry.2)))
      node.children.zipIdx plans := by
    refine hitems.imp fun entry plan hentry => ?_
    obtain ⟨recorded, site, -, hsite, hplan⟩ := hentry
    obtain ⟨subject, rfl⟩ := exists_subject recorded
    obtain rfl := Except.ok.inj hsite
    exact ⟨subject, name, subject.plan, _, _, siteRelocated_recording, hplan, rfl⟩
  obtain ⟨subjects, hplans⟩ := exists_indexed (P := fun index (subject : SubjectContent) plan =>
    RequirementUpTo Core.recording (SiteRelocated Core.recording) plan
      (name, subject.plan, planSite context.origin (indexed name.path index))) 0 hsubjects
  exact ⟨subjects, List.forall₂_map_right_iff.mpr hplans.flip⟩

/-- The same for a sequence that may be absent. -/
theorem exists_optionalSubjects (name : ScopeName) {found : Option Node}
    {plans : List Core.recording.RequirementDeclaration}
    (h : IsOptional (IsRequirementSequence Core.recording context name.path
      (name.scope Core.recording)) [] found plans) :
    ∃ subjects : List SubjectContent,
      Requested plans (planRequirements context.origin name subjects) := by
  cases found with
  | none =>
      obtain rfl : plans = [] := h
      exact ⟨[], List.Forall₂.nil⟩
  | some node => exact exists_subjects name h

/-- The plan of requirements under actions. -/
def planBlocks (origin : SourceOrigin) (blocks : List (LifecycleAction × List SubjectContent)) :
    List Core.recording.RequirementDeclaration :=
  blocks.flatMap fun block => planRequirements origin (.lifecycle block.1) block.2

/-- An action without requirements is left out of the content. -/
theorem exists_blocks {found : Option Node}
    {groups : List (List Core.recording.RequirementDeclaration)}
    (hvalid : ∀ node, found = some node → node.Valid)
    (h : IsOptional (IsLifecycleRequirements Core.recording context
      (childPath (ascii "requirements") (ascii "lifecycle"))) [] found groups) :
    ∃ blocks : List (LifecycleAction × List SubjectContent),
      (∀ block ∈ blocks, block.2 ≠ []) ∧ (blocks.map Prod.fst).Nodup ∧
      Requested groups.flatten (planBlocks context.origin blocks) := by
  cases found with
  | none =>
      obtain rfl : groups = [] := h
      exact ⟨[], by simp, List.nodup_nil, List.Forall₂.nil⟩
  | some node =>
      obtain ⟨hkind, hgroups⟩ := h
      have hblocks : List.Forall₂ (fun pair group =>
          ∃ block : LifecycleAction × List SubjectContent, pair.1.scalar = block.1.name ∧
            Requested group (planRequirements context.origin (.lifecycle block.1) block.2))
          node.pairs groups := by
        refine hgroups.imp fun pair group hgroup => ?_
        obtain ⟨action, hname, hsequence⟩ := hgroup
        rw [childPath_lifecycle, hname] at hsequence
        obtain ⟨subjects, hsubjects⟩ := exists_subjects (.lifecycle action) hsequence
        exact ⟨(action, subjects), hname, hsubjects⟩
      obtain ⟨blocks, hnames, hplans⟩ := exists_between hblocks
      have hdistinct : (blocks.map Prod.fst).Nodup := by
        have hkeys := ((hvalid node rfl).admitted hkind).distinct
        rw [map_eq_of_forall₂ (fun _ _ hname => hname) hnames] at hkeys
        refine List.Nodup.of_map LifecycleAction.name ?_
        rwa [List.map_map]
      refine ⟨Blocks.filled blocks, fun block hblock => ?_, ?_, ?_⟩
      · simpa using (List.mem_filter.mp hblock).2
      · exact hdistinct.sublist (List.filter_sublist.map Prod.fst)
      · have hempty : ∀ block : LifecycleAction × List SubjectContent, block.2 = [] →
            planRequirements context.origin (.lifecycle block.1) block.2 = [] := by
          intro block hnil
          rw [hnil]
          rfl
        rw [planBlocks, Blocks.flatMap_filled hempty, List.flatMap_def]
        refine List.rel_flatten ?_
        rw [List.forall₂_map_right_iff]
        exact hplans.flip

theorem programPlan_injective :
    Function.Injective fun material : Bytes => (ProgramLanguage.posixShell, material) :=
  fun _ _ h => (Prod.mk.inj h).2

theorem lifecyclePlan_injective : Function.Injective fun entry : LifecycleAction × Bytes =>
    (entry.1, ProgramLanguage.posixShell, entry.2) := by
  intro entry entry' h
  obtain ⟨haction, hprogram⟩ := Prod.mk.inj h
  exact Prod.ext haction (programPlan_injective hprogram)

theorem exists_program {plan : Core.recording.Program}
    (h : IsProgram Core.recording node plan) : ∃ material, plan = (.posixShell, material) := by
  obtain ⟨-, -, material, -, hplan⟩ := h
  exact ⟨material, (Except.ok.inj hplan).symm⟩

theorem exists_lifecycle {found : Option Node} {plans : List Core.recording.LifecycleProgram}
    (hvalid : ∀ node, found = some node → node.Valid)
    (h : IsOptional (IsLifecycle Core.recording) [] found plans) :
    ∃ actions : List (LifecycleAction × Bytes), (actions.map Prod.fst).Nodup ∧
      plans = actions.map fun entry => (entry.1, .posixShell, entry.2) := by
  cases found with
  | none => exact ⟨[], List.nodup_nil, h⟩
  | some node =>
      obtain ⟨hkind, hprograms⟩ := h
      have hactions : List.Forall₂ (fun pair plan => ∃ entry : LifecycleAction × Bytes,
          pair.1.scalar = entry.1.name ∧ (entry.1, .posixShell, entry.2) = plan) node.pairs
          plans := by
        refine hprograms.imp fun pair plan hprogram => ?_
        obtain ⟨action, program, hname, hbody, hplan⟩ := hprogram
        obtain ⟨material, rfl⟩ := exists_program hbody
        exact ⟨(action, material), hname, Except.ok.inj hplan⟩
      obtain ⟨actions, hnames, hplans⟩ := exists_between hactions
      have hkeys := ((hvalid node rfl).admitted hkind).distinct
      rw [map_eq_of_forall₂ (fun _ _ hname => hname) hnames] at hkeys
      refine ⟨actions, List.Nodup.of_map LifecycleAction.name ?_, ?_⟩
      · rwa [List.map_map]
      · have hsame := map_eq_of_forall₂ (fun _ _ hplan => hplan) hplans
        exact (hsame.trans (List.map_id' plans)).symm

theorem SourceContent.plan_injective : Function.Injective SourceContent.plan := by
  rintro ⟨locator, name, hash, unpack⟩ ⟨locator', name', hash', unpack'⟩ h
  cases locator <;> cases locator' <;> cases h <;> rfl

theorem exists_source {plan : Core.recording.SourceInput} (h : IsSource Core.recording node plan) :
    ∃ source : SourceContent, source.plan = plan := by
  obtain ⟨-, name, hash, content, unpack, -, -, hcontent, -, hlocated⟩ := h
  obtain rfl := Except.ok.inj hcontent
  cases hlocated with
  | url locator _ _ hplan => exact ⟨⟨.url locator, name, hash, unpack⟩, Except.ok.inj hplan⟩
  | path locator _ _ hplan => exact ⟨⟨.path locator, name, hash, unpack⟩, Except.ok.inj hplan⟩

theorem exists_sources {plans : List Core.recording.SourceInput}
    (h : IsSources Core.recording node plans) :
    ∃ sources : List SourceContent, sources.map SourceContent.plan = plans := by
  have hplans : plans ∈ Set.range (List.map SourceContent.plan) := by
    rw [Set.range_list_map]
    intro plan hplan
    obtain ⟨entry, -, hentry⟩ := (ForallPerm.of_forall₂ h.2).exists_left hplan
    exact exists_source hentry
  exact hplans

theorem exists_check {found : Option Node} {plan : Option Core.recording.Program}
    (h : IsOptional (fun node check => ∃ program, IsProgram Core.recording node program ∧
      check = some program) none found plan) :
    ∃ check : Option Bytes, (check.map fun material => (.posixShell, material)) = plan := by
  cases found with
  | none =>
      obtain rfl : plan = none := h
      exact ⟨none, rfl⟩
  | some node =>
      obtain ⟨program, hprogram, rfl⟩ := h
      obtain ⟨material, rfl⟩ := exists_program hprogram
      exact ⟨some material, rfl⟩

/-! ### What a recipe says -/

theorem exists_requirements {groups : RequirementGroups Core.recording} (hvalid : node.Valid)
    (h : IsRequirements Core.recording context (ascii "requirements") node groups) :
    ∃ (build run check : List SubjectContent)
      (blocks : List (LifecycleAction × List SubjectContent)),
      (∀ block ∈ blocks, block.2 ≠ []) ∧ (blocks.map Prod.fst).Nodup ∧
      Requested (groups.flatten Core.recording)
        (planRequirements context.origin .build build ++ planRequirements context.origin .run run ++
          planRequirements context.origin .check check ++ planBlocks context.origin blocks) := by
  obtain ⟨build, hbuild⟩ := exists_optionalSubjects .build h.build
  obtain ⟨run, hrun⟩ := exists_optionalSubjects .run h.run
  obtain ⟨check, hcheck⟩ := exists_optionalSubjects .check h.check
  obtain ⟨blocks, hfilled, hdistinct, hlifecycle⟩ :=
    exists_blocks (fun _ hfield => hvalid.field hfield) h.lifecycle
  exact ⟨build, run, check, blocks, hfilled, hdistinct,
    requested_append (requested_append (requested_append hbuild hrun) hcheck) hlifecycle⟩

theorem RecipeContent.flatten_fields (content : RecipeContent) (origin : SourceOrigin) :
    (content.fields origin).requirements.flatten Core.recording =
      planRequirements origin .build content.buildRequirements ++
        planRequirements origin .run content.runRequirements ++
        planRequirements origin .check content.checkRequirements ++
        planBlocks origin content.lifecycleRequirements := by
  rw [planBlocks, List.flatMap_def]
  rfl

/-- A recipe that is read says something, and what it says is planned like it. -/
theorem exists_content {fields : RecipeFields Core.recording}
    {plan : Core.recording.RecipeDeclaration} (hvalid : root.Valid)
    (h : IsRecipe Core.recording context root fields)
    (hplan : fields.declare Core.recording = .ok plan) :
    ∃ content : RecipeContent, RecipeUpTo Core.recording (SiteRelocated Core.recording) plan
      (content.plan context.origin) := by
  obtain ⟨package, -, -, hrelease, hmetadata⟩ := h.package
  obtain ⟨requirements, hfield, hgroups⟩ := h.requirements
  obtain ⟨list, -, hsources⟩ := h.sources
  obtain ⟨program, -, hbuild⟩ := h.build
  obtain ⟨name, version, number, hreleaseFields, hreleased⟩ := hrelease
  obtain ⟨summary, description, homepage, licenses, -, hdescribed⟩ := hmetadata
  obtain ⟨-, -, -, _, -, hpositive, -⟩ := hreleaseFields
  obtain ⟨build, run, check, blocks, hfilled, hblocks, hrequired⟩ :=
    exists_requirements (hvalid.field hfield) hgroups
  obtain ⟨sources, hsourced⟩ := exists_sources hsources
  obtain ⟨material, hbuilt⟩ := exists_program hbuild
  obtain ⟨checkMaterial, hchecked⟩ := exists_check h.check
  obtain ⟨lifecycle, hactions, hcycled⟩ :=
    exists_lifecycle (fun _ hfield => hvalid.field hfield) h.lifecycle
  have hsite := Except.ok.inj h.provenance
  let content : RecipeContent :=
    { name, version, release := number, summary, description, homepage, licenses, sources
      build := material
      check := checkMaterial
      buildRequirements := build
      runRequirements := run
      checkRequirements := check
      lifecycleRequirements := blocks
      lifecycle
      buildArchitectures := fields.architectures.1
      targetArchitectures := fields.architectures.2
      positive := hpositive
      filled := hfilled
      requirementActions := hblocks
      lifecycleActions := hactions }
  refine ⟨content, fields.release, fields.metadata, fields.sources, fields.build,
    fields.requirements.flatten Core.recording,
    (content.fields context.origin).requirements.flatten Core.recording, fields.lifecycle,
    fields.architectures, fields.provenance, planSite context.origin (ascii "document"),
    fields.check, ?_, ?_, hplan, ?_⟩
  · rw [content.flatten_fields]
    exact hrequired
  · rw [← hsite]
    exact siteRelocated_recording
  · rw [hbuilt, hcycled, ← hsourced, ← hchecked, ← Except.ok.inj hreleased,
      ← Except.ok.inj hdescribed]
    rfl

/-! ### A recipe says one thing -/

variable {Site : Core.recording.DeclarationProvenance → Core.recording.DeclarationProvenance → Prop}

/-- The scope and the subject of a requirement. -/
def said (plan : Core.recording.RequirementDeclaration) :
    ScopeName × Core.recording.RequirementSubject :=
  (plan.1, plan.2.1)

theorem map_said_eq {plans plans' : List Core.recording.RequirementDeclaration}
    (h : List.Forall₂ (RequirementUpTo Core.recording Site) plans plans') :
    plans.map said = plans'.map said := by
  refine map_eq_of_forall₂ (fun plan plan' hplans => ?_) h
  obtain ⟨scope, subject, site, site', -, hplan, hplan'⟩ := hplans
  rw [← Except.ok.inj hplan, ← Except.ok.inj hplan']
  rfl

theorem map_said_planRequirements (origin : SourceOrigin) (name : ScopeName)
    (subjects : List SubjectContent) : (planRequirements origin name subjects).map said =
      (subjects.map SubjectContent.plan).map fun subject => (name, subject) := by
  calc (planRequirements origin name subjects).map said
      = subjects.zipIdx.map fun entry => (name, entry.1.plan) := List.map_map
    _ = (subjects.zipIdx.map Prod.fst).map fun subject => (name, subject.plan) := by
        rw [List.map_map]
        rfl
    _ = subjects.map fun subject => (name, subject.plan) := by rw [List.zipIdx_map_fst]
    _ = (subjects.map SubjectContent.plan).map fun subject => (name, subject) := by
        rw [List.map_map]
        rfl

/-- The requirements under actions as named blocks. -/
def subjectBlocks (blocks : List (LifecycleAction × List SubjectContent)) :
    List (ScopeName × List Core.recording.RequirementSubject) :=
  blocks.map fun block => (.lifecycle block.1, block.2.map SubjectContent.plan)

theorem map_said_planBlocks (origin : SourceOrigin)
    (blocks : List (LifecycleAction × List SubjectContent)) :
    (planBlocks origin blocks).map said = Blocks.tagged (subjectBlocks blocks) := by
  rw [planBlocks, List.map_flatMap, Blocks.tagged, subjectBlocks, List.flatMap_map]
  congr 1
  funext block
  exact map_said_planRequirements origin (.lifecycle block.1) block.2

theorem subjectBlocks_injective : Function.Injective subjectBlocks := by
  refine List.map_injective_iff.mpr fun block block' h => ?_
  obtain ⟨hname, hsubjects⟩ := Prod.mk.inj h
  exact Prod.ext (ScopeName.lifecycle.inj hname)
    (List.map_injective_iff.mpr SubjectContent.plan_injective hsubjects)

/-- The names of the blocks are those of the actions, and no other scope is among them. -/
theorem names_subjectBlocks (blocks : List (LifecycleAction × List SubjectContent)) :
    (subjectBlocks blocks).map Prod.fst = (blocks.map Prod.fst).map ScopeName.lifecycle := by
  rw [subjectBlocks, List.map_map, List.map_map]
  rfl

theorem filled_subjectBlocks {blocks : List (LifecycleAction × List SubjectContent)}
    (h : ∀ block ∈ blocks, block.2 ≠ []) : ∀ block ∈ subjectBlocks blocks, block.2 ≠ [] := by
  intro named hnamed
  obtain ⟨block, hblock, rfl⟩ := List.mem_map.mp hnamed
  rw [Ne, List.map_eq_nil_iff]
  exact h block hblock

namespace RecipeContent

variable (content other : RecipeContent)

/-- The requirements of a content as named blocks. -/
def blocks : List (ScopeName × List Core.recording.RequirementSubject) :=
  (.build, content.buildRequirements.map SubjectContent.plan) ::
    (.run, content.runRequirements.map SubjectContent.plan) ::
    (.check, content.checkRequirements.map SubjectContent.plan) ::
    subjectBlocks content.lifecycleRequirements

theorem map_said_requirements (origin : SourceOrigin) :
    ((content.fields origin).requirements.flatten Core.recording).map said =
      Blocks.tagged content.blocks := by
  rw [content.flatten_fields, List.map_append, List.map_append, List.map_append,
    map_said_planRequirements, map_said_planRequirements, map_said_planRequirements,
    map_said_planBlocks, List.append_assoc, List.append_assoc]
  rfl

/-- The requirements of a content can be told from what is said in all of its scopes. -/
theorem requirements_eq (h : Blocks.tagged content.blocks = Blocks.tagged other.blocks) :
    content.buildRequirements = other.buildRequirements ∧
      content.runRequirements = other.runRequirements ∧
      content.checkRequirements = other.checkRequirements ∧
      content.lifecycleRequirements = other.lifecycleRequirements := by
  have hplan := List.map_injective_iff.mpr SubjectContent.plan_injective
  have hnames : ∀ content : RecipeContent,
      ((subjectBlocks content.lifecycleRequirements).map Prod.fst).Nodup := by
    intro content
    rw [names_subjectBlocks]
    exact content.requirementActions.map fun _ _ => ScopeName.lifecycle.inj
  obtain ⟨hbuild, h⟩ := Blocks.tagged_cons_inj (by simp [names_subjectBlocks])
    (by simp [names_subjectBlocks]) h
  obtain ⟨hrun, h⟩ := Blocks.tagged_cons_inj (by simp [names_subjectBlocks])
    (by simp [names_subjectBlocks]) h
  obtain ⟨hcheck, h⟩ := Blocks.tagged_cons_inj (by simp [names_subjectBlocks])
    (by simp [names_subjectBlocks]) h
  refine ⟨hplan hbuild, hplan hrun, hplan hcheck, subjectBlocks_injective ?_⟩
  exact Blocks.eq_of_tagged_filled (hnames content) (hnames other)
    (filled_subjectBlocks content.filled) (filled_subjectBlocks other.filled) h

/-- What is planned alike, apart from where it stands, is the same content. -/
theorem eq_of_sameFields {fields : RecipeFields Core.recording} {origin : SourceOrigin}
    (h : SameFields fields (content.fields origin)) (h' : SameFields fields (other.fields origin)) :
    content = other := by
  obtain ⟨hname, hnumbers⟩ := Prod.mk.inj (h.release.symm.trans h'.release)
  obtain ⟨hversion, hrelease⟩ := Prod.mk.inj hnumbers
  obtain ⟨hsummary, htexts⟩ := Prod.mk.inj (h.metadata.symm.trans h'.metadata)
  obtain ⟨hdescription, htexts⟩ := Prod.mk.inj htexts
  obtain ⟨hhomepage, hlicenses⟩ := Prod.mk.inj htexts
  obtain ⟨hbuildNames, htargetNames⟩ := Prod.mk.inj (h.architectures.symm.trans h'.architectures)
  have hsources := List.map_injective_iff.mpr SourceContent.plan_injective
    (h.sources.symm.trans h'.sources)
  have hbuild := (Prod.mk.inj (h.build.symm.trans h'.build)).2
  have hlifecycle := List.map_injective_iff.mpr lifecyclePlan_injective
    (h.lifecycle.symm.trans h'.lifecycle)
  have hcheck := Option.map_injective programPlan_injective (h.check.symm.trans h'.check)
  have hsaid := map_said_eq h.requirements
  have hsaid' := map_said_eq h'.requirements
  rw [map_said_requirements] at hsaid hsaid'
  obtain ⟨hbuildSubjects, hrun, hcheckSubjects, hblocks⟩ :=
    requirements_eq content other (hsaid.symm.trans hsaid')
  exact RecipeContent.ext hname hversion hrelease hsummary hdescription hhomepage hlicenses hsources
    hbuild hcheck hbuildSubjects hrun hcheckSubjects hblocks hlifecycle hbuildNames htargetNames

end RecipeContent

/-! ### Normal forms -/

/-- **Every recipe that is read has a normal form.** Whatever `libpkgsource` is, as long as its
scope constructors succeed, a document that is accepted says exactly one content. Its plan is that
of this content, apart from labels, lines and columns, and it is the same document as the canonical
one. -/
theorem recipe_normal_form (core : Core) (hscopes : ScopesAccepted core) (context : Context)
    (order : EvaluationOrder) (input : Input) (limits : ParseLimits) (root : Node)
    (declaration : core.RecipeDeclaration)
    (hroot : documentOutcome input context.origin limits = .ok root)
    (hdeclaration : recipeValue core context order root = .ok declaration) :
    ∃ (plan : Core.recording.RecipeDeclaration) (content : RecipeContent),
      recipeValue Core.recording context order root = .ok plan ∧
      interpretRecipe core plan = .ok declaration ∧
      RecipeUpTo Core.recording (SiteRelocated Core.recording) plan
        (content.plan context.origin) ∧
      SameDocument SameArchitectures root content.write.toNode ∧
      ∀ other : RecipeContent,
        RecipeUpTo Core.recording (fun _ _ => True) plan (other.plan context.origin) →
        other = content := by
  have hformed := formed_of_documentOutcome hroot
  obtain ⟨plan, hplanned, hinterpreted⟩ :=
    (recipeValue_planned hscopes order order hformed.valid).mp hdeclaration
  obtain ⟨fields, hrecipe, hplan⟩ := (recipeValue_eq_ok_iff hformed.valid).mp hplanned
  obtain ⟨content, hcontent⟩ := exists_content hformed.valid hrecipe hplan
  have hsame : ∀ other : RecipeContent,
      RecipeUpTo Core.recording (fun _ _ => True) plan (other.plan context.origin) →
      SameFields fields (other.fields context.origin) := by
    intro other hother
    exact faithful_recording.sameFields hplan rfl hother
  have hfields := hsame content (hcontent.mono fun _ _ _ => trivial)
  refine ⟨plan, content, hplanned, hinterpreted, hcontent, ?_, fun other hother => ?_⟩
  · exact faithful_recording.sameDocument hformed content.written.formed hrecipe
      content.isRecipe_plan hfields
  · exact other.eq_of_sameFields content (hsame other hother) hfields

theorem recipe_normal_form_restricted : ∃ content : RecipeContent,
    SameDocument SameArchitectures (restrictedRecipe targetAndEmptyBuild).toNode
      content.write.toNode := by
  obtain ⟨_, content, -, -, -, hsame, -⟩ := recipe_normal_form Core.recording
    (fun name => ⟨name, scope_recording name⟩) ⟨⟨ascii "recipe.yaml"⟩, false⟩ .textual
    (.spelling 310 (restrictedRecipe targetAndEmptyBuild)) {} _ restrictedDeclaration rfl rfl
  exact ⟨content, hsame⟩

/-! ### What profiles say -/

abbrev Membered (plans plans' : List Core.recording.ProfileMemberDeclaration) : Prop :=
  List.Forall₂ (MemberUpTo Core.recording (SiteRelocated Core.recording)) plans plans'

theorem exists_members {key : Bytes} {plans : List Core.recording.ProfileMemberDeclaration}
    (h : IsMembers Core.recording context key node plans) :
    ∃ members : List SubjectContent, Membered plans (planMembers context.origin key members) := by
  obtain ⟨-, list, -, -, hitems⟩ := h
  have hmembers : List.Forall₂ (fun entry plan => ∃ subject : SubjectContent,
      MemberUpTo Core.recording (SiteRelocated Core.recording) plan
        (subject.plan, planSite context.origin (memberPath key entry.2)))
      list.children.zipIdx plans := by
    refine hitems.imp fun entry plan hentry => ?_
    obtain ⟨recorded, site, -, hsite, hplan⟩ := hentry
    obtain ⟨subject, rfl⟩ := exists_subject recorded
    obtain rfl := Except.ok.inj hsite
    exact ⟨subject, subject.plan, _, _, siteRelocated_recording, hplan, rfl⟩
  obtain ⟨members, hplans⟩ := exists_indexed (P := fun index (subject : SubjectContent) plan =>
    MemberUpTo Core.recording (SiteRelocated Core.recording) plan
      (subject.plan, planSite context.origin (memberPath key index))) 0 hmembers
  exact ⟨members, List.forall₂_map_right_iff.mpr hplans.flip⟩

abbrev Profiled (plans plans' : List Core.recording.ProfileDeclaration) : Prop :=
  List.Forall₂ (ProfileUpTo Core.recording (SiteRelocated Core.recording)) plans plans'

/-- Profiles that are read say something, and what they say is planned like them. -/
theorem exists_profiles {plans : List Core.recording.ProfileDeclaration} (hvalid : root.Valid)
    (h : IsProfiles Core.recording context root plans) :
    ∃ content : ProfilesContent, Profiled plans (content.plan context.origin) := by
  obtain ⟨node, hfield, hkind, hentries⟩ := h.profiles
  have hprofiles : List.Forall₂ (fun pair plan => ∃ profile : Bytes × List SubjectContent,
      pair.1.scalar = profile.1 ∧
        ProfileUpTo Core.recording (SiteRelocated Core.recording) plan
          (ascii "@" ++ profile.1, planSite context.origin (profilePath profile.1),
            planMembers context.origin profile.1 profile.2)) node.pairs plans := by
    refine hentries.imp fun pair plan hplan => ?_
    obtain ⟨reference, site, members, hreference, hsite, hmembers, hplan⟩ := hplan
    obtain ⟨subjects, hsubjects⟩ := exists_members hmembers
    obtain rfl := Except.ok.inj hreference
    obtain rfl := Except.ok.inj hsite
    exact ⟨(pair.1.scalar, subjects), rfl, _, _, _, _, _, siteRelocated_recording, hsubjects, hplan,
      rfl⟩
  obtain ⟨profiles, hnames, hplans⟩ := exists_between hprofiles
  have hadmitted := (hvalid.field hfield).admitted hkind
  have hkeys : node.pairs.map (·.1.scalar) = profiles.map Prod.fst :=
    map_eq_of_forall₂ (fun _ _ hname => hname) hnames
  refine ⟨⟨profiles, fun hmerge => ?_, ?_⟩, List.forall₂_map_right_iff.mpr hplans.flip⟩
  · rw [← hkeys, List.mem_map] at hmerge
    obtain ⟨pair, hpair, hname⟩ := hmerge
    exact hadmitted.noMerge pair hpair hname
  · rw [← hkeys]
    exact hadmitted.distinct

/-! ### Profiles say one thing -/

/-- The name and the subjects of a profile. -/
def named (plan : Core.recording.ProfileDeclaration) :
    Bytes × List Core.recording.RequirementSubject :=
  (plan.1, plan.2.2.map Prod.fst)

theorem map_named_eq {plans plans' : List Core.recording.ProfileDeclaration}
    (h : List.Forall₂ (ProfileUpTo Core.recording Site) plans plans') :
    plans.map named = plans'.map named := by
  refine map_eq_of_forall₂ (fun plan plan' hplans => ?_) h
  obtain ⟨reference, site, site', members, members', -, hmembers, hplan, hplan'⟩ := hplans
  have hsubjects : members.map Prod.fst = members'.map Prod.fst := by
    refine map_eq_of_forall₂ (fun member member' hsame => ?_) hmembers
    obtain ⟨subject, site, site', -, hmember, hmember'⟩ := hsame
    rw [← Except.ok.inj hmember, ← Except.ok.inj hmember']
  rw [← Except.ok.inj hplan, ← Except.ok.inj hplan']
  exact Prod.ext rfl hsubjects

theorem ProfilesContent.map_named_plan (content : ProfilesContent) (origin : SourceOrigin) :
    (content.plan origin).map named = content.profiles.map fun profile =>
      (ascii "@" ++ profile.1, profile.2.map SubjectContent.plan) := by
  have hmembers : ∀ (name : Bytes) (members : List SubjectContent),
      (planMembers origin name members).map Prod.fst = members.map SubjectContent.plan := by
    intro name members
    have hsubjects := List.zipIdx_map_fst 0 members
    refine List.map_map.trans ?_
    calc members.zipIdx.map (fun entry => entry.1.plan)
        = (members.zipIdx.map Prod.fst).map SubjectContent.plan := by
          rw [List.map_map]
          rfl
      _ = members.map SubjectContent.plan := by rw [hsubjects]
  refine List.map_map.trans (List.map_congr_left fun profile _ => ?_)
  exact Prod.ext rfl (hmembers profile.1 profile.2)

/-- What is planned alike, apart from where it stands, is the same content. -/
theorem ProfilesContent.eq_of_upTo {content other : ProfilesContent} {origin : SourceOrigin}
    {plans : List Core.recording.ProfileDeclaration}
    (h : List.Forall₂ (ProfileUpTo Core.recording Site) plans (content.plan origin))
    (h' : List.Forall₂ (ProfileUpTo Core.recording Site) plans (other.plan origin)) :
    content = other := by
  have hnamed := (map_named_eq h).symm.trans (map_named_eq h')
  rw [content.map_named_plan, other.map_named_plan] at hnamed
  refine ProfilesContent.ext (List.map_injective_iff.mpr (fun profile profile' hprofile => ?_)
    hnamed)
  obtain ⟨hname, hmembers⟩ := Prod.mk.inj hprofile
  exact Prod.ext (List.append_cancel_left hname)
    (List.map_injective_iff.mpr SubjectContent.plan_injective hmembers)

/-- **Profiles that are read have a normal form.** The same for a profiles document, whatever
`libpkgsource` is. -/
theorem profiles_normal_form (core : Core) (context : Context) (input : Input)
    (limits : ParseLimits) (root : Node) (declarations : List core.ProfileDeclaration)
    (hroot : documentOutcome input context.origin limits = .ok root)
    (hdeclarations : profilesValue core context root = .ok declarations) :
    ∃ (plans : List Core.recording.ProfileDeclaration) (content : ProfilesContent),
      profilesValue Core.recording context root = .ok plans ∧
      interpretProfiles core plans = .ok declarations ∧
      List.Forall₂ (ProfileUpTo Core.recording (SiteRelocated Core.recording)) plans
        (content.plan context.origin) ∧
      SameProfilesDocument root content.write.toNode ∧
      ∀ other : ProfilesContent,
        List.Forall₂ (ProfileUpTo Core.recording fun _ _ => True) plans
          (other.plan context.origin) → other = content := by
  have hformed := formed_of_documentOutcome hroot
  obtain ⟨plans, hplanned, hinterpreted⟩ :=
    isProfiles_planned.mp ((profilesValue_eq_ok_iff hformed.valid).mp hdeclarations)
  obtain ⟨content, hcontent⟩ := exists_profiles hformed.valid hplanned
  refine ⟨plans, content, (profilesValue_eq_ok_iff hformed.valid).mpr hplanned, hinterpreted,
    hcontent, ?_, fun other hother => ?_⟩
  · exact faithfulProfiles_recording.sameProfiles hformed content.written.formed hplanned
      content.isProfiles_plan hcontent
  · exact ProfilesContent.eq_of_upTo hother
      (hcontent.imp fun _ _ hplan => hplan.mono fun _ _ _ => trivial)

theorem profiles_normal_form_unsafe : ∃ content : ProfilesContent,
    SameProfilesDocument unsafeProfiles.toNode content.write.toNode := by
  obtain ⟨_, content, -, -, -, hsame, -⟩ := profiles_normal_form Core.recording
    ⟨⟨ascii "profiles.yaml"⟩, false⟩ (.spelling 120 unsafeProfiles) {} unsafeProfiles.toNode _
    rfl rfl
  exact ⟨content, hsame⟩

end PkgsourceYaml
