import PkgsourceYaml.Plan
import PkgsourceYaml.Library.Interpretation
import PkgsourceYaml.Proof.Containment
import PkgsourceYaml.Proof.Identification

/-!
# A document is read once

Whatever `libpkgsource` is, a parser reads the plan of the document and makes the calls it stands
for. Each section of the grammar is read through its plan, and so are the two whole grammars.
-/

namespace PkgsourceYaml

open Interpretation Throwing

variable {core : Core} {context : Context} {node root : Node} {path : Bytes}

/-! ### Sections -/

theorem isSubject_planned {subject : core.RequirementSubject} :
    IsSubject core node subject ↔
      ∃ plan, IsSubject Core.recording node plan ∧ interpretSubject core plan = .ok subject := by
  constructor
  · intro h
    cases h with
    | package name keys hpackage hprofile haccepted =>
        exact ⟨.inl name, .package name keys hpackage hprofile rfl, haccepted⟩
    | profile name keys hpackage hprofile haccepted =>
        exact ⟨.inr name, .profile name keys hpackage hprofile rfl, haccepted⟩
  · rintro ⟨plan, hplan, hinterpreted⟩
    cases hplan with
    | package name keys hpackage hprofile haccepted =>
        obtain rfl := Except.ok.inj haccepted
        exact .package name keys hpackage hprofile hinterpreted
    | profile name keys hpackage hprofile haccepted =>
        obtain rfl := Except.ok.inj haccepted
        exact .profile name keys hpackage hprofile hinterpreted

theorem isProgram_planned {program : core.Program} :
    IsProgram core node program ↔
      ∃ plan, IsProgram Core.recording node plan ∧ interpretProgram core plan = .ok program := by
  constructor
  · rintro ⟨keys, language, material, hmaterial, haccepted⟩
    exact ⟨(.posixShell, material), ⟨keys, language, material, hmaterial, rfl⟩, haccepted⟩
  · rintro ⟨plan, ⟨keys, language, material, hmaterial, haccepted⟩, hinterpreted⟩
    obtain rfl := Except.ok.inj haccepted
    exact ⟨keys, language, material, hmaterial, hinterpreted⟩

theorem scope_recording (name : ScopeName) : name.scope Core.recording = .ok name := by
  cases name <;> rfl

theorem isRequirement_planned {name : ScopeName} {scope : core.RequirementScope}
    {declaration : core.RequirementDeclaration} (hscope : name.scope core = .ok scope) :
    IsRequirement core context scope path node declaration ↔
      ∃ plan, IsRequirement Core.recording context name path node plan ∧
        interpretRequirement core plan = .ok declaration := by
  constructor
  · rintro ⟨subject, site, hsubject, hsite, haccepted⟩
    obtain ⟨plan, hplan, hinterpreted⟩ := isSubject_planned.mp hsubject
    refine ⟨(name, plan, context.origin.document, path, node.mark.line, node.mark.column),
      ⟨plan, _, hplan, rfl, rfl⟩, ?_⟩
    simp only [interpretRequirement, bind_eq_ok]
    exact ⟨scope, hscope, subject, hinterpreted, site, hsite, haccepted⟩
  · rintro ⟨plan, ⟨subjectPlan, sitePlan, hsubject, hsite, haccepted⟩, hinterpreted⟩
    obtain rfl := Except.ok.inj hsite
    obtain rfl := Except.ok.inj haccepted
    simp only [interpretRequirement, bind_eq_ok] at hinterpreted
    obtain ⟨scope', hscope', subject, hread, site, hsited, hdeclared⟩ := hinterpreted
    obtain rfl : scope = scope' := Except.ok.inj (hscope.symm.trans hscope')
    exact ⟨subject, site, isSubject_planned.mpr ⟨_, hsubject, hread⟩, hsited, hdeclared⟩

/-- Lists of entries are read through the plans of their entries. -/
theorem isItems_planned {α π : Type} {Reads : Nat → Node → α → Prop}
    {Plans : Nat → Node → π → Prop} {interpret : π → Except CoreError α} {values : List α}
    (h : ∀ index entry value, Reads index entry value ↔
      ∃ plan, Plans index entry plan ∧ interpret plan = .ok value) :
    IsItems Reads node values ↔
      ∃ plans, IsItems Plans node plans ∧
        List.Forall₂ (fun plan value => interpret plan = .ok value) plans values := by
  unfold IsItems
  rw [forall₂_through fun entry _ value => h entry.2 entry.1 value]
  simp only [and_assoc, exists_and_left]

theorem isEntries_planned {α π : Type} {Reads : Node → Node → α → Prop}
    {Plans : Node → Node → π → Prop} {Interprets : π → α → Prop} {values : List α}
    (h : ∀ key child value, Reads key child value ↔
      ∃ plan, Plans key child plan ∧ Interprets plan value) :
    IsEntries Reads node values ↔
      ∃ plans, IsEntries Plans node plans ∧ List.Forall₂ Interprets plans values := by
  unfold IsEntries
  rw [forall₂_through fun pair _ value => h pair.1 pair.2 value]
  simp only [and_assoc, exists_and_left]

/-- An optional section is read through its plan, if its absence has one. -/
theorem isOptional_planned {α π : Type} {Reads : Node → α → Prop} {Plans : Node → π → Prop}
    {Interprets : π → α → Prop} {absent value : α} {planned : π} {found : Option Node}
    (habsent : ∀ value, value = absent ↔ Interprets planned value)
    (h : ∀ child, Reads child value ↔ ∃ plan, Plans child plan ∧ Interprets plan value) :
    IsOptional Reads absent found value ↔
      ∃ plan, IsOptional Plans planned found plan ∧ Interprets plan value := by
  cases found with
  | none => simp only [IsOptional, habsent, exists_eq_left]
  | some child => exact h child

theorem eq_nil_iff_forall₂ {α π : Type} {Interprets : π → α → Prop} (values : List α) :
    values = [] ↔ List.Forall₂ Interprets [] values :=
  List.forall₂_nil_left_iff.symm

/-- The declarations a plan of requirements is interpreted as. -/
abbrev Requires (core : Core) (plans : List Core.recording.RequirementDeclaration)
    (declarations : List core.RequirementDeclaration) : Prop :=
  List.Forall₂ (fun plan declaration => interpretRequirement core plan = .ok declaration) plans
    declarations

theorem isRequirementSequence_planned (hscopes : ScopesAccepted core) (name : ScopeName)
    {declarations : List core.RequirementDeclaration} :
    IsRequirementSequence core context path (name.scope core) node declarations ↔
      ∃ plans, IsRequirementSequence Core.recording context path (name.scope Core.recording) node
        plans ∧ Requires core plans declarations := by
  obtain ⟨scope, hscope⟩ := hscopes name
  have hitems := @isItems_planned node _ _ (fun index => IsRequirement core context scope
    (indexed path index)) (fun index => IsRequirement Core.recording context name
    (indexed path index)) (interpretRequirement core) declarations
    fun index entry value => isRequirement_planned hscope
  have hrecorded : ∀ plans, IsRequirementSequence Core.recording context path
      (name.scope Core.recording) node plans ↔ IsItems (fun index =>
        IsRequirement Core.recording context name (indexed path index)) node plans := by
    intro plans
    constructor
    · rintro ⟨scope, hrecorded, hplans⟩
      obtain rfl := Except.ok.inj ((scope_recording name).symm.trans hrecorded)
      exact hplans
    · exact fun hplans => ⟨name, scope_recording name, hplans⟩
  simp only [hrecorded]
  unfold IsRequirementSequence
  simp only [hscope, Except.ok.injEq, exists_eq_left']
  exact hitems

theorem isLifecycleRequirements_planned (hscopes : ScopesAccepted core)
    {groups : List (List core.RequirementDeclaration)} :
    IsLifecycleRequirements core context path node groups ↔
      ∃ plans, IsLifecycleRequirements Core.recording context path node plans ∧
        List.Forall₂ (Requires core) plans groups := by
  refine isEntries_planned fun key subjects group => ?_
  constructor
  · rintro ⟨action, hname, hgroup⟩
    obtain ⟨plans, hplans, hinterpreted⟩ :=
      (isRequirementSequence_planned hscopes (.lifecycle action)).mp hgroup
    exact ⟨plans, ⟨action, hname, hplans⟩, hinterpreted⟩
  · rintro ⟨plans, ⟨action, hname, hplans⟩, hinterpreted⟩
    exact ⟨action, hname, (isRequirementSequence_planned hscopes (.lifecycle action)).mpr
      ⟨plans, hplans, hinterpreted⟩⟩

structure PlannedGroups (plan : RequirementGroups Core.recording)
    (groups : RequirementGroups core) : Prop where
  build : Requires core plan.build groups.build
  run : Requires core plan.run groups.run
  check : Requires core plan.check groups.check
  lifecycle : List.Forall₂ (Requires core) plan.lifecycle groups.lifecycle

theorem isRequirements_planned (hscopes : ScopesAccepted core) {groups : RequirementGroups core} :
    IsRequirements core context path node groups ↔
      ∃ plan, IsRequirements Core.recording context path node plan ∧
        PlannedGroups plan groups := by
  have hscope : ∀ (name : ScopeName) (key : Bytes)
      (declarations : List core.RequirementDeclaration),
      IsOptional (IsRequirementSequence core context (childPath path key) (name.scope core)) []
          (node.field? key) declarations ↔
        ∃ plans, IsOptional (IsRequirementSequence Core.recording context (childPath path key)
          (name.scope Core.recording)) [] (node.field? key) plans ∧
          Requires core plans declarations :=
    fun name key declarations => isOptional_planned eq_nil_iff_forall₂
      fun child => isRequirementSequence_planned hscopes name
  have hlifecycle : ∀ groups : List (List core.RequirementDeclaration),
      IsOptional (IsLifecycleRequirements core context (childPath path (ascii "lifecycle"))) []
          (node.field? (ascii "lifecycle")) groups ↔
        ∃ plans, IsOptional (IsLifecycleRequirements Core.recording context
          (childPath path (ascii "lifecycle"))) [] (node.field? (ascii "lifecycle")) plans ∧
          List.Forall₂ (Requires core) plans groups :=
    fun groups => isOptional_planned eq_nil_iff_forall₂
      fun child => isLifecycleRequirements_planned hscopes
  constructor
  · intro h
    obtain ⟨build, hbuild, hbuilds⟩ := (hscope .build _ _).mp h.build
    obtain ⟨run, hrun, hruns⟩ := (hscope .run _ _).mp h.run
    obtain ⟨check, hcheck, hchecks⟩ := (hscope .check _ _).mp h.check
    obtain ⟨lifecycle, hgroups, hlifecycles⟩ := (hlifecycle _).mp h.lifecycle
    exact ⟨⟨build, run, check, lifecycle⟩, ⟨h.keys, hbuild, hrun, hcheck, hgroups⟩,
      ⟨hbuilds, hruns, hchecks, hlifecycles⟩⟩
  · rintro ⟨plan, h, hplanned⟩
    exact ⟨h.keys, (hscope .build _ _).mpr ⟨_, h.build, hplanned.build⟩,
      (hscope .run _ _).mpr ⟨_, h.run, hplanned.run⟩,
      (hscope .check _ _).mpr ⟨_, h.check, hplanned.check⟩,
      (hlifecycle _).mpr ⟨_, h.lifecycle, hplanned.lifecycle⟩⟩

/-- The flat list of a recipe's requirements is interpreted group by group. -/
theorem requires_flatten_iff {plan : RequirementGroups Core.recording}
    {declarations : List core.RequirementDeclaration} :
    Requires core (plan.flatten Core.recording) declarations ↔
      ∃ groups : RequirementGroups core, PlannedGroups plan groups ∧
        groups.flatten core = declarations := by
  unfold RequirementGroups.flatten Requires
  constructor
  · intro h
    obtain ⟨_, _, hscopes, hlast, rfl⟩ := forall₂_append_left_iff.mp h
    obtain ⟨lifecycle, hlifecycle, rfl⟩ := forall₂_flatten_left_iff.mp hlast
    obtain ⟨_, check, hfirst, hcheck, rfl⟩ := forall₂_append_left_iff.mp hscopes
    obtain ⟨build, run, hbuild, hrun, rfl⟩ := forall₂_append_left_iff.mp hfirst
    exact ⟨⟨build, run, check, lifecycle⟩, ⟨hbuild, hrun, hcheck, hlifecycle⟩, rfl⟩
  · rintro ⟨groups, h, rfl⟩
    exact List.rel_append (List.rel_append (List.rel_append h.build h.run) h.check)
      (List.rel_flatten h.lifecycle)

theorem isLifecycle_planned {programs : List core.LifecycleProgram} :
    IsLifecycle core node programs ↔
      ∃ plans, IsLifecycle Core.recording node plans ∧ List.Forall₂ (fun plan program =>
        interpretLifecycleProgram core plan = .ok program) plans programs := by
  refine isEntries_planned fun key programNode lifecycleProgram => ?_
  constructor
  · rintro ⟨action, program, hname, hprogram, haccepted⟩
    obtain ⟨plan, hplan, hinterpreted⟩ := isProgram_planned.mp hprogram
    refine ⟨(action, plan), ⟨action, plan, hname, hplan, rfl⟩, ?_⟩
    simp only [interpretLifecycleProgram, bind_eq_ok]
    exact ⟨program, hinterpreted, haccepted⟩
  · rintro ⟨_, ⟨action, plan, hname, hplan, hrecorded⟩, hinterpreted⟩
    obtain rfl := Except.ok.inj hrecorded
    simp only [interpretLifecycleProgram, bind_eq_ok] at hinterpreted
    obtain ⟨program, hprogram, haccepted⟩ := hinterpreted
    exact ⟨action, program, hname, isProgram_planned.mpr ⟨plan, hplan, hprogram⟩, haccepted⟩

theorem isArchitectureList_planned {references : List core.ArchitectureReference} :
    IsArchitectureList core node references ↔
      ∃ plans, IsArchitectureList Core.recording node plans ∧ List.Forall₂ (fun plan reference =>
        interpretArchitecture core plan = .ok reference) plans references := by
  refine isItems_planned fun _ entry reference => ?_
  constructor
  · rintro ⟨name, hname, haccepted⟩
    exact ⟨name, ⟨name, hname, rfl⟩, haccepted⟩
  · rintro ⟨_, ⟨name, hname, hrecorded⟩, haccepted⟩
    obtain rfl := Except.ok.inj hrecorded
    exact ⟨name, hname, haccepted⟩

theorem isArchitectures_planned {architectures : core.ArchitectureRequirements} :
    IsArchitectures core node architectures ↔
      ∃ plan, IsArchitectures Core.recording node plan ∧
        interpretArchitectures core plan = .ok architectures := by
  have hlist : ∀ (found : Option Node) (references : List core.ArchitectureReference),
      IsOptional (IsArchitectureList core) [] found references ↔
        ∃ plans, IsOptional (IsArchitectureList Core.recording) [] found plans ∧
          List.Forall₂ (fun plan reference => interpretArchitecture core plan = .ok reference)
            plans references :=
    fun found references => isOptional_planned eq_nil_iff_forall₂ fun child =>
      isArchitectureList_planned
  constructor
  · rintro ⟨keys, build, target, hbuild, htarget, haccepted⟩
    obtain ⟨builds, hbuilds, hbuilt⟩ := (hlist _ _).mp hbuild
    obtain ⟨targets, htargets, htargeted⟩ := (hlist _ _).mp htarget
    refine ⟨(builds, targets), ⟨keys, builds, targets, hbuilds, htargets, rfl⟩, ?_⟩
    simp only [interpretArchitectures, bind_eq_ok, mapM_eq_ok_iff]
    exact ⟨build, hbuilt, target, htargeted, haccepted⟩
  · rintro ⟨_, ⟨keys, builds, targets, hbuilds, htargets, hrecorded⟩, hinterpreted⟩
    obtain rfl := Except.ok.inj hrecorded
    simp only [interpretArchitectures, bind_eq_ok, mapM_eq_ok_iff] at hinterpreted
    obtain ⟨build, hbuilt, target, htargeted, haccepted⟩ := hinterpreted
    exact ⟨keys, build, target, (hlist _ _).mpr ⟨builds, hbuilds, hbuilt⟩,
      (hlist _ _).mpr ⟨targets, htargets, htargeted⟩, haccepted⟩

theorem isRecipeArchitectures_planned {architectures : core.ArchitectureRequirements} :
    IsRecipeArchitectures core root architectures ↔
      ∃ plan, IsRecipeArchitectures Core.recording root plan ∧
        interpretArchitectures core plan = .ok architectures := by
  unfold IsRecipeArchitectures
  cases root.field? (ascii "architectures") with
  | some child => exact isArchitectures_planned
  | none =>
      constructor
      · exact fun haccepted => ⟨([], []), rfl, haccepted⟩
      · rintro ⟨_, hrecorded, hinterpreted⟩
        obtain rfl := Except.ok.inj hrecorded
        exact hinterpreted

theorem isSource_planned {source : core.SourceInput} :
    IsSource core node source ↔
      ∃ plan, IsSource Core.recording node plan ∧ interpretSource core plan = .ok source := by
  constructor
  · rintro ⟨keys, name, hash, content, unpack, hname, hhash, hcontent, hunpack, hlocated⟩
    cases hlocated with
    | url locator hurl hpath haccepted =>
        refine ⟨.inl (locator, name, (.sha256, hash), unpack), ⟨keys, name, hash, (.sha256, hash),
          unpack, hname, hhash, rfl, hunpack, .url locator hurl hpath rfl⟩, ?_⟩
        simp only [interpretSource, bind_eq_ok]
        exact ⟨content, hcontent, haccepted⟩
    | path locator hurl hpath haccepted =>
        refine ⟨.inr (locator, name, (.sha256, hash), unpack), ⟨keys, name, hash, (.sha256, hash),
          unpack, hname, hhash, rfl, hunpack, .path locator hurl hpath rfl⟩, ?_⟩
        simp only [interpretSource, bind_eq_ok]
        exact ⟨content, hcontent, haccepted⟩
  · rintro ⟨_, ⟨keys, name, hash, recorded, unpack, hname, hhash, hrecorded, hunpack, hlocated⟩,
      hinterpreted⟩
    obtain rfl := Except.ok.inj hrecorded
    cases hlocated with
    | url locator hurl hpath haccepted =>
        obtain rfl := Except.ok.inj haccepted
        simp only [interpretSource, bind_eq_ok] at hinterpreted
        obtain ⟨content, hcontent, hsource⟩ := hinterpreted
        exact ⟨keys, name, hash, content, unpack, hname, hhash, hcontent, hunpack,
          .url locator hurl hpath hsource⟩
    | path locator hurl hpath haccepted =>
        obtain rfl := Except.ok.inj haccepted
        simp only [interpretSource, bind_eq_ok] at hinterpreted
        obtain ⟨content, hcontent, hsource⟩ := hinterpreted
        exact ⟨keys, name, hash, content, unpack, hname, hhash, hcontent, hunpack,
          .path locator hurl hpath hsource⟩

theorem isSources_planned {sources : List core.SourceInput} :
    IsSources core node sources ↔
      ∃ plans, IsSources Core.recording node plans ∧ List.Forall₂ (fun plan source =>
        interpretSource core plan = .ok source) plans sources := by
  refine isItems_planned fun index entry source => ?_
  exact isSource_planned

theorem isRelease_planned {release : core.PackageRelease} :
    IsRelease core node release ↔
      ∃ plan, IsRelease Core.recording node plan ∧ interpretRelease core plan = .ok release := by
  constructor
  · rintro ⟨name, version, number, hfields, haccepted⟩
    exact ⟨(name, version, number), ⟨name, version, number, hfields, rfl⟩, haccepted⟩
  · rintro ⟨_, ⟨name, version, number, hfields, hrecorded⟩, hinterpreted⟩
    obtain rfl := Except.ok.inj hrecorded
    exact ⟨name, version, number, hfields, hinterpreted⟩

theorem isMetadata_planned {metadata : core.PackageMetadata} :
    IsMetadata core node metadata ↔
      ∃ plan, IsMetadata Core.recording node plan ∧ interpretMetadata core plan = .ok metadata := by
  constructor
  · rintro ⟨summary, description, homepage, licenses, hfields, haccepted⟩
    exact ⟨(summary, description, homepage, licenses),
      ⟨summary, description, homepage, licenses, hfields, rfl⟩, haccepted⟩
  · rintro ⟨_, ⟨summary, description, homepage, licenses, hfields, hrecorded⟩, hinterpreted⟩
    obtain rfl := Except.ok.inj hrecorded
    exact ⟨summary, description, homepage, licenses, hfields, hinterpreted⟩

theorem isCheck_planned {found : Option Node} {check : Option core.Program} :
    IsOptional (fun node check => ∃ program, IsProgram core node program ∧ check = some program)
        none found check ↔
      ∃ plan, IsOptional (fun node check => ∃ program, IsProgram Core.recording node program ∧
        check = some program) none found plan ∧ interpretCheck core plan = .ok check := by
  refine @isOptional_planned _ _ _ _ (fun plan value => interpretCheck core plan = .ok value) _ _
    none found (fun value => ?_) fun child => ?_
  · rw [interpretCheck, pure_eq_ok, eq_comm]
  · constructor
    · rintro ⟨program, hprogram, rfl⟩
      obtain ⟨plan, hplan, hinterpreted⟩ := isProgram_planned.mp hprogram
      refine ⟨some plan, ⟨plan, hplan, rfl⟩, ?_⟩
      simp only [interpretCheck, bind_eq_ok, pure_eq_ok]
      exact ⟨program, hinterpreted, rfl⟩
    · rintro ⟨_, ⟨plan, hplan, rfl⟩, hinterpreted⟩
      simp only [interpretCheck, bind_eq_ok, pure_eq_ok] at hinterpreted
      obtain ⟨program, hprogram, rfl⟩ := hinterpreted
      exact ⟨program, isProgram_planned.mpr ⟨plan, hplan, hprogram⟩, rfl⟩

theorem provenance_planned {site : core.DeclarationProvenance} :
    provenance core context path node = .ok site ↔
      ∃ plan, provenance Core.recording context path node = .ok plan ∧
        interpretSite core plan = .ok site := by
  constructor
  · exact fun hsite =>
      ⟨(context.origin.document, path, node.mark.line, node.mark.column), rfl, hsite⟩
  · rintro ⟨_, hrecorded, hinterpreted⟩
    obtain rfl := Except.ok.inj hrecorded
    exact hinterpreted

/-! ### Recipes -/

/-- The fields of a recipe are what the fields of its plan are interpreted as. -/
structure PlannedFields (plan : RecipeFields Core.recording) (fields : RecipeFields core) :
    Prop where
  release : interpretRelease core plan.release = .ok fields.release
  metadata : interpretMetadata core plan.metadata = .ok fields.metadata
  sources : List.Forall₂ (fun plan source => interpretSource core plan = .ok source) plan.sources
    fields.sources
  build : interpretProgram core plan.build = .ok fields.build
  requirements : PlannedGroups plan.requirements fields.requirements
  lifecycle : List.Forall₂ (fun plan program => interpretLifecycleProgram core plan = .ok program)
    plan.lifecycle fields.lifecycle
  architectures : interpretArchitectures core plan.architectures = .ok fields.architectures
  provenance : interpretSite core plan.provenance = .ok fields.provenance
  check : interpretCheck core plan.check = .ok fields.check

theorem isRecipe_planned (hscopes : ScopesAccepted core) {fields : RecipeFields core} :
    IsRecipe core context root fields ↔
      ∃ plan, IsRecipe Core.recording context root plan ∧ PlannedFields plan fields := by
  have hlifecycle : ∀ programs : List core.LifecycleProgram,
      IsOptional (IsLifecycle core) [] (root.field? (ascii "lifecycle")) programs ↔
        ∃ plans, IsOptional (IsLifecycle Core.recording) []
            (root.field? (ascii "lifecycle")) plans ∧
          List.Forall₂ (fun plan program => interpretLifecycleProgram core plan = .ok program) plans
            programs :=
    fun programs => isOptional_planned eq_nil_iff_forall₂ fun child => isLifecycle_planned
  constructor
  · intro h
    obtain ⟨package, hpackage, hmapping, hrelease, hmetadata⟩ := h.package
    obtain ⟨requirements, hrequirements, hgroups⟩ := h.requirements
    obtain ⟨sources, hsources, hlist⟩ := h.sources
    obtain ⟨build, hbuild, hprogram⟩ := h.build
    obtain ⟨release, hreleasePlan, hreleased⟩ := isRelease_planned.mp hrelease
    obtain ⟨metadata, hmetadataPlan, hdescribed⟩ := isMetadata_planned.mp hmetadata
    obtain ⟨groups, hgroupsPlan, hgrouped⟩ := (isRequirements_planned hscopes).mp hgroups
    obtain ⟨sourceList, hsourcesPlan, hsourced⟩ := isSources_planned.mp hlist
    obtain ⟨program, hprogramPlan, hbuilt⟩ := isProgram_planned.mp hprogram
    obtain ⟨check, hcheckPlan, hchecked⟩ := isCheck_planned.mp h.check
    obtain ⟨programs, hprogramsPlan, hcycled⟩ := (hlifecycle _).mp h.lifecycle
    obtain ⟨architectures, harchitecturesPlan, hrestricted⟩ :=
      isRecipeArchitectures_planned.mp h.architectures
    obtain ⟨site, hsitePlan, hsited⟩ := provenance_planned.mp h.provenance
    exact ⟨⟨release, metadata, sourceList, program, groups, programs, architectures, site, check⟩,
      ⟨h.keys, h.format, ⟨package, hpackage, hmapping, hreleasePlan, hmetadataPlan⟩,
        ⟨requirements, hrequirements, hgroupsPlan⟩, ⟨sources, hsources, hsourcesPlan⟩,
        ⟨build, hbuild, hprogramPlan⟩, hcheckPlan, hprogramsPlan, harchitecturesPlan, hsitePlan⟩,
      ⟨hreleased, hdescribed, hsourced, hbuilt, hgrouped, hcycled, hrestricted, hsited, hchecked⟩⟩
  · rintro ⟨plan, h, hplanned⟩
    obtain ⟨package, hpackage, hmapping, hrelease, hmetadata⟩ := h.package
    obtain ⟨requirements, hrequirements, hgroups⟩ := h.requirements
    obtain ⟨sources, hsources, hlist⟩ := h.sources
    obtain ⟨build, hbuild, hprogram⟩ := h.build
    exact ⟨h.keys, h.format,
      ⟨package, hpackage, hmapping, isRelease_planned.mpr ⟨_, hrelease, hplanned.release⟩,
        isMetadata_planned.mpr ⟨_, hmetadata, hplanned.metadata⟩⟩,
      ⟨requirements, hrequirements,
        (isRequirements_planned hscopes).mpr ⟨_, hgroups, hplanned.requirements⟩⟩,
      ⟨sources, hsources, isSources_planned.mpr ⟨_, hlist, hplanned.sources⟩⟩,
      ⟨build, hbuild, isProgram_planned.mpr ⟨_, hprogram, hplanned.build⟩⟩,
      isCheck_planned.mpr ⟨_, h.check, hplanned.check⟩,
      (hlifecycle _).mpr ⟨_, h.lifecycle, hplanned.lifecycle⟩,
      isRecipeArchitectures_planned.mpr ⟨_, h.architectures, hplanned.architectures⟩,
      provenance_planned.mpr ⟨_, h.provenance, hplanned.provenance⟩⟩

/-- Interpreting the plan of a recipe is interpreting its fields and declaring them. -/
theorem interpretRecipe_eq_ok_iff {fields : RecipeFields Core.recording}
    {plan : Core.recording.RecipeDeclaration} {declaration : core.RecipeDeclaration}
    (hplan : fields.declare Core.recording = .ok plan) :
    interpretRecipe core plan = .ok declaration ↔
      ∃ interpreted : RecipeFields core, PlannedFields fields interpreted ∧
        interpreted.declare core = .ok declaration := by
  obtain rfl := Except.ok.inj hplan
  simp only [interpretRecipe, bind_eq_ok, mapM_eq_ok_iff, requires_flatten_iff]
  constructor
  · rintro ⟨release, hrelease, metadata, hmetadata, sources, hsources, build, hbuild, _,
      ⟨groups, hgroups, rfl⟩, lifecycle, hlifecycle, architectures, harchitectures, site, hsite,
      check, hcheck, hdeclared⟩
    exact ⟨⟨release, metadata, sources, build, groups, lifecycle, architectures, site, check⟩,
      ⟨hrelease, hmetadata, hsources, hbuild, hgroups, hlifecycle, harchitectures, hsite, hcheck⟩,
      hdeclared⟩
  · rintro ⟨interpreted, h, hdeclared⟩
    exact ⟨_, h.release, _, h.metadata, _, h.sources, _, h.build, _,
      ⟨interpreted.requirements, h.requirements, rfl⟩, _, h.lifecycle, _, h.architectures, _,
      h.provenance, _, h.check, hdeclared⟩

theorem recipeValue_planned (hscopes : ScopesAccepted core) (order order' : EvaluationOrder)
    (hvalid : root.Valid) {declaration : core.RecipeDeclaration} :
    recipeValue core context order root = .ok declaration ↔
      ∃ plan, recipeValue Core.recording context order' root = .ok plan ∧
        interpretRecipe core plan = .ok declaration := by
  simp only [recipeValue_eq_ok_iff hvalid, isRecipe_planned hscopes]
  constructor
  · rintro ⟨fields, ⟨plan, hrecipe, hplanned⟩, hdeclared⟩
    exact ⟨_, ⟨plan, hrecipe, rfl⟩,
      (interpretRecipe_eq_ok_iff rfl).mpr ⟨fields, hplanned, hdeclared⟩⟩
  · rintro ⟨_, ⟨plan, hrecipe, hplan⟩, hinterpreted⟩
    obtain ⟨fields, hplanned, hdeclared⟩ := (interpretRecipe_eq_ok_iff hplan).mp hinterpreted
    exact ⟨fields, ⟨plan, hrecipe, hplanned⟩, hdeclared⟩

/-! ### Profiles -/

theorem isMember_planned {member : core.ProfileMemberDeclaration} :
    IsMember core context path node member ↔
      ∃ plan, IsMember Core.recording context path node plan ∧
        interpretMember core plan = .ok member := by
  constructor
  · rintro ⟨subject, site, hsubject, hsite, haccepted⟩
    obtain ⟨plan, hplan, hinterpreted⟩ := isSubject_planned.mp hsubject
    obtain ⟨sitePlan, hsitePlan, hsited⟩ := provenance_planned.mp hsite
    refine ⟨(plan, sitePlan), ⟨plan, sitePlan, hplan, hsitePlan, rfl⟩, ?_⟩
    simp only [interpretMember, bind_eq_ok]
    exact ⟨subject, hinterpreted, site, hsited, haccepted⟩
  · rintro ⟨_, ⟨plan, sitePlan, hplan, hsitePlan, hrecorded⟩, hinterpreted⟩
    obtain rfl := Except.ok.inj hrecorded
    simp only [interpretMember, bind_eq_ok] at hinterpreted
    obtain ⟨subject, hsubject, site, hsited, haccepted⟩ := hinterpreted
    exact ⟨subject, site, isSubject_planned.mpr ⟨plan, hplan, hsubject⟩,
      provenance_planned.mpr ⟨sitePlan, hsitePlan, hsited⟩, haccepted⟩

theorem isMembers_planned {key : Bytes} {members : List core.ProfileMemberDeclaration} :
    IsMembers core context key node members ↔
      ∃ plans, IsMembers Core.recording context key node plans ∧
        List.Forall₂ (fun plan member => interpretMember core plan = .ok member) plans members := by
  have hentries : ∀ list : Node, IsItems (fun index => IsMember core context
        (indexed (profilePath key ++ ascii ".members") index)) list members ↔
      ∃ plans, IsItems (fun index => IsMember Core.recording context
        (indexed (profilePath key ++ ascii ".members") index)) list plans ∧
        List.Forall₂ (fun plan member => interpretMember core plan = .ok member) plans members := by
    intro list
    refine isItems_planned fun index entry member => ?_
    exact isMember_planned
  constructor
  · rintro ⟨keys, list, hlist, hitems⟩
    obtain ⟨plans, hplans, hinterpreted⟩ := (hentries list).mp hitems
    exact ⟨plans, ⟨keys, list, hlist, hplans⟩, hinterpreted⟩
  · rintro ⟨plans, ⟨keys, list, hlist, hplans⟩, hinterpreted⟩
    exact ⟨keys, list, hlist, (hentries list).mpr ⟨plans, hplans, hinterpreted⟩⟩

theorem isProfile_planned {key definition : Node} {declaration : core.ProfileDeclaration} :
    IsProfile core context key definition declaration ↔
      ∃ plan, IsProfile Core.recording context key definition plan ∧
        interpretProfile core plan = .ok declaration := by
  constructor
  · rintro ⟨reference, site, members, hreference, hsite, hmembers, haccepted⟩
    obtain ⟨sitePlan, hsitePlan, hsited⟩ := provenance_planned.mp hsite
    obtain ⟨plans, hplans, hinterpreted⟩ := isMembers_planned.mp hmembers
    refine ⟨(ascii "@" ++ key.scalar, sitePlan, plans),
      ⟨_, sitePlan, plans, rfl, hsitePlan, hplans, rfl⟩, ?_⟩
    simp only [interpretProfile, bind_eq_ok, mapM_eq_ok_iff]
    exact ⟨reference, hreference, site, hsited, members, hinterpreted, haccepted⟩
  · rintro ⟨_, ⟨name, sitePlan, plans, hname, hsitePlan, hplans, hrecorded⟩, hinterpreted⟩
    obtain rfl := Except.ok.inj hname
    obtain rfl := Except.ok.inj hrecorded
    simp only [interpretProfile, bind_eq_ok, mapM_eq_ok_iff] at hinterpreted
    obtain ⟨reference, hreference, site, hsited, members, hmembers, haccepted⟩ := hinterpreted
    exact ⟨reference, site, members, hreference, provenance_planned.mpr ⟨_, hsitePlan, hsited⟩,
      isMembers_planned.mpr ⟨plans, hplans, hmembers⟩, haccepted⟩

theorem isProfiles_planned {declarations : List core.ProfileDeclaration} :
    IsProfiles core context root declarations ↔
      ∃ plans, IsProfiles Core.recording context root plans ∧
        interpretProfiles core plans = .ok declarations := by
  have hpairs : ∀ profiles : Node, IsEntries (IsProfile core context) profiles declarations ↔
      ∃ plans, IsEntries (IsProfile Core.recording context) profiles plans ∧
        List.Forall₂ (fun plan declaration => interpretProfile core plan = .ok declaration) plans
          declarations := by
    intro profiles
    refine isEntries_planned fun key definition declaration => ?_
    exact isProfile_planned
  unfold interpretProfiles
  simp only [mapM_eq_ok_iff]
  constructor
  · rintro ⟨keys, format, profiles, hprofiles, hentries⟩
    obtain ⟨plans, hplans, hinterpreted⟩ := (hpairs profiles).mp hentries
    exact ⟨plans, ⟨keys, format, profiles, hprofiles, hplans⟩, hinterpreted⟩
  · rintro ⟨plans, ⟨keys, format, profiles, hprofiles, hplans⟩, hinterpreted⟩
    exact ⟨keys, format, profiles, hprofiles, (hpairs profiles).mpr ⟨plans, hplans, hinterpreted⟩⟩

/-! ### Both parsers -/

/-- **A document is read once.** Whatever `libpkgsource` is, as long as its scope constructors
succeed, and in whatever order the arguments of a recipe are evaluated, a parser returns a
declaration exactly when the document has a plan that is interpreted as this declaration. The plan
depends on the document and its label alone. -/
theorem document_planned (core : Core) (context : Context) (order order' : EvaluationOrder)
    (input : Input) (limits : ParseLimits) (hscopes : ScopesAccepted core) :
    (∀ declaration, parseRecipeYaml core context order input limits = .ok declaration ↔
      ∃ plan, parseRecipeYaml Core.recording context order' input limits = .ok plan ∧
        interpretRecipe core plan = .ok declaration) ∧
    ∀ declarations, parseProfilesYaml core context input limits = .ok declarations ↔
      ∃ plans, parseProfilesYaml Core.recording context input limits = .ok plans ∧
        interpretProfiles core plans = .ok declarations := by
  unfold parseRecipeYaml parseProfilesYaml
  cases hroot : documentOutcome input context.origin limits with
  | error exception =>
      refine ⟨fun declaration => ⟨fun h => ?_, fun h => ?_⟩,
        fun declarations => ⟨fun h => ?_, fun h => ?_⟩⟩
      · cases h
      · obtain ⟨_, h, -⟩ := h
        cases h
      · cases h
      · obtain ⟨_, h, -⟩ := h
        cases h
  | ok root =>
      have hvalid := valid_of_documentOutcome hroot
      refine ⟨fun declaration => recipeValue_planned hscopes order order' hvalid,
        fun declarations => ?_⟩
      change profilesValue core context root = .ok declarations ↔
        ∃ plans, profilesValue Core.recording context root = .ok plans ∧ _
      simp only [profilesValue_eq_ok_iff hvalid]
      exact isProfiles_planned

theorem scopesAccepted_guarded : ScopesAccepted Core.guarded := by
  intro name
  cases name <;> exact ⟨(), rfl⟩

/-- The profile whose location `libpkgsource` rejects has a plan, which it rejects as well. -/
theorem document_planned_unsafe :
    ¬∃ declarations, parseProfilesYaml Core.guarded ⟨⟨ascii "profiles.yaml"⟩, false⟩
      (.spelling 120 unsafeProfiles) {} = .ok declarations := by
  rintro ⟨declarations, hdeclarations⟩
  obtain ⟨plans, hplans, hinterpreted⟩ := ((document_planned Core.guarded
    ⟨⟨ascii "profiles.yaml"⟩, false⟩ .textual .textual (.spelling 120 unsafeProfiles) {}
    scopesAccepted_guarded).2 declarations).mp hdeclarations
  obtain rfl := Except.ok.inj hplans
  cases hinterpreted

end PkgsourceYaml
