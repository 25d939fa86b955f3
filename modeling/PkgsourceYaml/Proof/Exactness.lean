import PkgsourceYaml.Proof.Document
import PkgsourceYaml.Proof.ProfilesGrammar

/-!
# Grammar exactness

Where the `libpkgsource` calls that the parser does not guard succeed, the two entry points accept
exactly the documents of their grammars.
-/

namespace PkgsourceYaml

open Throwing

variable {core : Core} {context : Context}

theorem exists_isItems_iff {α : Type} {Reads : Nat → Node → α → Prop} {node : Node} :
    (∃ values, IsItems Reads node values) ↔
      node.kind = .sequence ∧
        ∀ entry ∈ node.children.zipIdx, ∃ value, Reads entry.2 entry.1 value := by
  simp only [IsItems, exists_and_left, Entrywise.exists_forall₂_iff]

theorem forall_mem_zipIdx_iff {P : Node → Prop} {entries : List Node} :
    (∀ entry ∈ entries.zipIdx, P entry.1) ↔ ∀ entry ∈ entries, P entry := by
  rw [← List.forall_mem_map (f := Prod.fst), List.zipIdx_map_fst]

theorem exists_isEntries_iff {α : Type} {Reads : Node → Node → α → Prop} {node : Node} :
    (∃ values, IsEntries Reads node values) ↔
      node.kind = .mapping ∧ ∀ pair ∈ node.pairs, ∃ value, Reads pair.1 pair.2 value := by
  simp only [IsEntries, exists_and_left, Entrywise.exists_forall₂_iff]

theorem exists_isOptional_iff {α : Type} {Reads : Node → α → Prop} {absent : α}
    {found : Option Node} :
    (∃ value, IsOptional Reads absent found value) ↔
      ∀ child, found = some child → ∃ value, Reads child value := by
  cases found with
  | none => simp [IsOptional]
  | some child => simp [IsOptional]

/-- A sequence of declared subjects needs no more than the subjects, where every location is
accepted and every declaration succeeds. -/
theorem exists_declared_iff {α : Type} {path : Bytes} {node : Node}
    {declare : core.RequirementSubject → core.DeclarationProvenance → Except CoreError α}
    (hsite : ∀ index, ∀ entry ∈ node.children,
      ∃ site, provenance core context (indexed path index) entry = .ok site)
    (hdeclare : ∀ subject site, ∃ value, declare subject site = .ok value) :
    (∃ values, IsItems (fun index entry value => ∃ subject site, IsSubject core entry subject ∧
      provenance core context (indexed path index) entry = .ok site ∧
      declare subject site = .ok value) node values) ↔ SubjectSequence core node := by
  rw [exists_isItems_iff, SubjectSequence, ← forall_mem_zipIdx_iff]
  refine and_congr_right fun _ => forall₂_congr fun entry hentry => ?_
  constructor
  · rintro ⟨value, subject, site, hsubject, -⟩
    exact ⟨subject, hsubject⟩
  · rintro ⟨subject, hsubject⟩
    obtain ⟨site, hlocation⟩ := hsite entry.2 entry.1 (List.fst_mem_of_mem_zipIdx hentry)
    obtain ⟨value, hvalue⟩ := hdeclare subject site
    exact ⟨value, subject, site, hsubject, hlocation, hvalue⟩

/-! ### Recipes -/

/-- The paths at which a recipe constructs a provenance without a guard. -/
inductive RecipeSite : Bytes → Prop where
  | document : RecipeSite (ascii "document")
  | scope (key : Bytes) (index : Nat) (h : key ∈ [ascii "build", ascii "run", ascii "check"]) :
      RecipeSite (indexed (childPath (ascii "requirements") key) index)
  | lifecycle (action : LifecycleAction) (index : Nat) :
      RecipeSite (indexed (childPath (childPath (ascii "requirements") (ascii "lifecycle"))
        action.name) index)

/-- The unguarded calls of `parse_recipe_yaml` succeed on this tree. -/
structure UnguardedRecipe (core : Core) (context : Context) (root : Node) : Prop where
  site : ∀ path, RecipeSite path → ∀ node ∈ root.nodes,
    ∃ site, provenance core context path node = .ok site
  buildScope : ∃ scope, core.buildScope = .ok scope
  runScope : ∃ scope, core.runScope = .ok scope
  checkScope : ∃ scope, core.checkScope = .ok scope
  lifecycleScope : ∀ action, ∃ scope, core.lifecycleScope action = .ok scope
  requirement : ∀ scope subject site,
    ∃ declaration, core.requirementDeclaration scope subject site = .ok declaration
  lifecycle : ∀ action program,
    ∃ lifecycleProgram, core.lifecycleProgram action program = .ok lifecycleProgram
  architectures : ∃ architectures, core.architectureRequirements [] [] = .ok architectures
  recipe : ∀ release metadata sources build requirements lifecycle architectures site check,
    ∃ declaration, core.recipeDeclaration release metadata sources build requirements lifecycle
      architectures site check = .ok declaration

section

variable {root : Node}

theorem exists_isRequirementSequence_iff (h : UnguardedRecipe core context root) {node : Node}
    {path : Bytes} {scope : Except CoreError core.RequirementScope}
    (hscope : ∃ scope', scope = .ok scope') (hnode : node ∈ root.nodes)
    (hpath : ∀ index, RecipeSite (indexed path index)) :
    (∃ declarations, IsRequirementSequence core context path scope node declarations) ↔
      SubjectSequence core node := by
  obtain ⟨scope, rfl⟩ := hscope
  have hsite : ∀ index, ∀ entry ∈ node.children,
      ∃ site, provenance core context (indexed path index) entry = .ok site :=
    fun index entry hentry => h.site _ (hpath index) entry (root.child_mem_nodes hnode hentry)
  rw [← exists_declared_iff hsite (h.requirement scope)]
  refine exists_congr fun declarations => ?_
  simp only [IsRequirementSequence, Except.ok.injEq, exists_eq_left']
  exact Iff.rfl

theorem field_mem_nodes {node child : Node} {key : Bytes} (hnode : node ∈ root.nodes)
    (hfield : node.field? key = some child) : child ∈ root.nodes := by
  obtain ⟨keyNode, hpair, -⟩ := Node.pair_of_field? hfield
  exact (root.pair_mem_nodes hnode hpair).2

theorem exists_isLifecycleRequirements_iff (h : UnguardedRecipe core context root) {node : Node}
    (hnode : node ∈ root.nodes) :
    (∃ groups, IsLifecycleRequirements core context
      (childPath (ascii "requirements") (ascii "lifecycle")) node groups) ↔
      ActionTable (SubjectSequence core) node := by
  unfold IsLifecycleRequirements
  rw [exists_isEntries_iff, ActionTable]
  refine and_congr_right fun _ => forall₂_congr fun pair hpair => ?_
  have hsubjects : pair.2 ∈ root.nodes := (root.pair_mem_nodes hnode hpair).2
  constructor
  · rintro ⟨group, action, hname, hgroup⟩
    rw [hname] at hgroup
    exact ⟨⟨action, hname⟩, (exists_isRequirementSequence_iff h (h.lifecycleScope action) hsubjects
      fun index => .lifecycle action index).mp ⟨group, hgroup⟩⟩
  · rintro ⟨⟨action, hname⟩, hsequence⟩
    obtain ⟨group, hgroup⟩ := (exists_isRequirementSequence_iff h (h.lifecycleScope action)
      hsubjects fun index => .lifecycle action index).mpr hsequence
    exact ⟨group, action, hname, hname ▸ hgroup⟩

theorem exists_isRequirements_iff (h : UnguardedRecipe core context root) {node : Node}
    (hnode : node ∈ root.nodes) :
    (∃ groups, IsRequirements core context (ascii "requirements") node groups) ↔
      RequirementsDocument core node := by
  have hscope : ∀ {key : Bytes} {scope : Except CoreError core.RequirementScope},
      (∃ scope', scope = .ok scope') → key ∈ [ascii "build", ascii "run", ascii "check"] →
      ((∃ declarations, IsOptional
          (IsRequirementSequence core context (childPath (ascii "requirements") key) scope) []
          (node.field? key) declarations) ↔
        ∀ child, node.field? key = some child → SubjectSequence core child) := by
    intro key scope hscope hkey
    rw [exists_isOptional_iff]
    exact forall₂_congr fun child hchild => exists_isRequirementSequence_iff h hscope
      (field_mem_nodes hnode hchild) fun index => .scope key index hkey
  have hlifecycle : (∃ groups, IsOptional (IsLifecycleRequirements core context
        (childPath (ascii "requirements") (ascii "lifecycle"))) []
        (node.field? (ascii "lifecycle")) groups) ↔
      ∀ child, node.field? (ascii "lifecycle") = some child →
        ActionTable (SubjectSequence core) child := by
    rw [exists_isOptional_iff]
    exact forall₂_congr fun child hchild =>
      exists_isLifecycleRequirements_iff h (field_mem_nodes hnode hchild)
  constructor
  · rintro ⟨groups, hkeys, hbuild, hrun, hcheck, hgroups⟩
    exact ⟨hkeys, (hscope h.buildScope (by simp)).mp ⟨_, hbuild⟩,
      (hscope h.runScope (by simp)).mp ⟨_, hrun⟩, (hscope h.checkScope (by simp)).mp ⟨_, hcheck⟩,
      hlifecycle.mp ⟨_, hgroups⟩⟩
  · rintro ⟨hkeys, hbuild, hrun, hcheck, hgroups⟩
    obtain ⟨build, hbuild⟩ := (hscope h.buildScope (by simp)).mpr hbuild
    obtain ⟨run, hrun⟩ := (hscope h.runScope (by simp)).mpr hrun
    obtain ⟨check, hcheck⟩ := (hscope h.checkScope (by simp)).mpr hcheck
    obtain ⟨groups, hgroups⟩ := hlifecycle.mpr hgroups
    exact ⟨⟨build, run, check, groups⟩, hkeys, hbuild, hrun, hcheck, hgroups⟩

theorem exists_isLifecycle_iff (h : UnguardedRecipe core context root) {node : Node} :
    (∃ programs, IsLifecycle core node programs) ↔
      ActionTable (fun programNode => ∃ program, IsProgram core programNode program) node := by
  unfold IsLifecycle
  rw [exists_isEntries_iff, ActionTable]
  refine and_congr_right fun _ => forall₂_congr fun pair _ => ?_
  constructor
  · rintro ⟨lifecycleProgram, action, program, hname, hprogram, -⟩
    exact ⟨⟨action, hname⟩, program, hprogram⟩
  · rintro ⟨⟨action, hname⟩, program, hprogram⟩
    obtain ⟨lifecycleProgram, haccepted⟩ := h.lifecycle action program
    exact ⟨lifecycleProgram, action, program, hname, hprogram, haccepted⟩

theorem exists_isRecipeArchitectures_iff (h : UnguardedRecipe core context root) :
    (∃ architectures, IsRecipeArchitectures core root architectures) ↔
      ∀ node, root.field? (ascii "architectures") = some node →
        ∃ architectures, IsArchitectures core node architectures := by
  unfold IsRecipeArchitectures
  cases root.field? (ascii "architectures") with
  | none => simpa using h.architectures
  | some node => simp

theorem exists_isRecipe_iff (h : UnguardedRecipe core context root) :
    (∃ fields, IsRecipe core context root fields) ↔ RecipeDocument core root := by
  have hcheck : (∃ check, IsOptional (fun node check => ∃ program, IsProgram core node program ∧
        check = some program) none (root.field? (ascii "check")) check) ↔
      ∀ node, root.field? (ascii "check") = some node →
        ∃ program, IsProgram core node program := by
    rw [exists_isOptional_iff]
    refine forall₂_congr fun node _ => ?_
    rw [exists_comm]
    simp
  have hlifecycle : (∃ programs, IsOptional (IsLifecycle core) []
        (root.field? (ascii "lifecycle")) programs) ↔
      ∀ node, root.field? (ascii "lifecycle") = some node →
        ActionTable (fun programNode => ∃ program, IsProgram core programNode program) node := by
    rw [exists_isOptional_iff]
    exact forall₂_congr fun node _ => exists_isLifecycle_iff h
  constructor
  · rintro ⟨fields, hfields⟩
    obtain ⟨package, hpackage, hmapping, hrelease, hmetadata⟩ := hfields.package
    obtain ⟨requirements, hrequirements, hgroups⟩ := hfields.requirements
    obtain ⟨sources, hsources, hlist⟩ := hfields.sources
    obtain ⟨build, hbuild, hprogram⟩ := hfields.build
    obtain ⟨hkind, hentries⟩ := exists_isItems_iff.mp ⟨_, hlist⟩
    exact ⟨hfields.keys, hfields.format,
      ⟨package, hpackage, hmapping, ⟨_, hrelease⟩, ⟨_, hmetadata⟩⟩,
      ⟨requirements, hrequirements, (exists_isRequirements_iff h
        (field_mem_nodes root.self_mem_nodes hrequirements)).mp ⟨_, hgroups⟩⟩,
      ⟨sources, hsources, hkind, forall_mem_zipIdx_iff.mp hentries⟩,
      ⟨build, hbuild, _, hprogram⟩, hcheck.mp ⟨_, hfields.check⟩,
      hlifecycle.mp ⟨_, hfields.lifecycle⟩,
      (exists_isRecipeArchitectures_iff h).mp ⟨_, hfields.architectures⟩⟩
  · intro hdocument
    obtain ⟨package, hpackage, hmapping, ⟨release, hrelease⟩, metadata, hmetadata⟩ :=
      hdocument.package
    obtain ⟨requirements, hrequirements, hgroups⟩ := hdocument.requirements
    obtain ⟨groups, hgroups⟩ := (exists_isRequirements_iff h
      (field_mem_nodes root.self_mem_nodes hrequirements)).mpr hgroups
    obtain ⟨sources, hsources, hkind, hentries⟩ := hdocument.sources
    obtain ⟨list, hlist⟩ : ∃ list, IsSources core sources list :=
      exists_isItems_iff.mpr ⟨hkind, forall_mem_zipIdx_iff.mpr hentries⟩
    obtain ⟨build, hbuild, program, hprogram⟩ := hdocument.build
    obtain ⟨check, hcheck⟩ := hcheck.mpr hdocument.check
    obtain ⟨programs, hprograms⟩ := hlifecycle.mpr hdocument.lifecycle
    obtain ⟨architectures, harchitectures⟩ :=
      (exists_isRecipeArchitectures_iff h).mpr hdocument.architectures
    obtain ⟨site, hsite⟩ := h.site _ .document root root.self_mem_nodes
    exact ⟨⟨release, metadata, list, program, groups, programs, architectures, site, check⟩,
      hdocument.keys, hdocument.format, ⟨package, hpackage, hmapping, hrelease, hmetadata⟩,
      ⟨requirements, hrequirements, hgroups⟩, ⟨sources, hsources, hlist⟩,
      ⟨build, hbuild, hprogram⟩, hcheck, hprograms, harchitectures, hsite⟩

end

theorem outcome_eq_ok_iff {α : Type} {input : Input} {limits : ParseLimits} {root : Node}
    (hroot : documentOutcome input context.origin limits = .ok root)
    (grammar : Node → Except Exception α) {result : α} :
    (documentOutcome input context.origin limits >>= grammar) = .ok result ↔
      grammar root = .ok result := by
  rw [hroot]
  exact Iff.rfl

/-- **Recipe grammar.** On every tree `parse_document` returns, in every evaluation order and for
every `libpkgsource` whose unguarded calls succeed, `parse_recipe_yaml` succeeds exactly on recipe
documents, and the declaration it returns is built from exactly the fields the grammar reads. -/
theorem parseRecipeYaml_exact (core : Core) (context : Context) (order : EvaluationOrder)
    (input : Input) (limits : ParseLimits) {root : Node}
    (hroot : documentOutcome input context.origin limits = .ok root)
    (hunguarded : UnguardedRecipe core context root) :
    ((∃ declaration, parseRecipeYaml core context order input limits = .ok declaration) ↔
      RecipeDocument core root) ∧
    ∀ declaration, parseRecipeYaml core context order input limits = .ok declaration ↔
      ∃ fields, IsRecipe core context root fields ∧ fields.declare core = .ok declaration := by
  have hvalid := valid_of_documentOutcome hroot
  have hcontent : ∀ declaration,
      parseRecipeYaml core context order input limits = .ok declaration ↔
        ∃ fields, IsRecipe core context root fields ∧ fields.declare core = .ok declaration := by
    intro declaration
    rw [parseRecipeYaml, outcome_eq_ok_iff hroot, recipeValue_eq_ok_iff hvalid]
  refine ⟨?_, hcontent⟩
  rw [← exists_isRecipe_iff hunguarded]
  constructor
  · rintro ⟨declaration, h⟩
    obtain ⟨fields, hfields, -⟩ := (hcontent declaration).mp h
    exact ⟨fields, hfields⟩
  · rintro ⟨fields, hfields⟩
    obtain ⟨declaration, hdeclaration⟩ := hunguarded.recipe _ _ _ _ _ _ _ _ _
    exact ⟨declaration, (hcontent declaration).mpr ⟨fields, hfields, hdeclaration⟩⟩

def minimalRecipe : EventTree :=
  .fields
    [("format", .text "zeppe-lin.recipe/1"),
      ("package", .fields
        [("name", .text "demo"), ("version", .text "1.0"), ("release", .text "1"),
          ("summary", .text "A demo"), ("licenses", .items [.text "MIT"])]),
      ("requirements", .fields [("run", .items [.fields [("package", .text "libc")]])]),
      ("sources", .items []),
      ("build", .fields [("language", .text "posix-shell"), ("script", .text "make")])]

theorem unguardedRecipe_permissive (context : Context) (root : Node) :
    UnguardedRecipe Core.permissive context root :=
  ⟨fun _ _ _ _ => ⟨(), rfl⟩, ⟨(), rfl⟩, ⟨(), rfl⟩, ⟨(), rfl⟩, fun _ => ⟨(), rfl⟩,
    fun _ _ _ => ⟨(), rfl⟩, fun _ _ => ⟨(), rfl⟩, ⟨(), rfl⟩,
    fun _ _ _ _ _ _ _ _ _ => ⟨(), rfl⟩⟩

theorem parseRecipeYaml_exact_minimal : RecipeDocument Core.permissive minimalRecipe.toNode :=
  (parseRecipeYaml_exact Core.permissive ⟨⟨ascii "recipe.yaml"⟩, false⟩ .textual
    (.spelling 300 minimalRecipe) {} rfl (unguardedRecipe_permissive _ _)).1.mp ⟨(), rfl⟩

/-! ### Profiles -/

/-- The unguarded calls of `parse_profiles_yaml` succeed on this tree: members are declared, and the
location of a member is accepted once the location of its profile is. -/
structure UnguardedProfiles (core : Core) (context : Context) (root : Node) : Prop where
  site : ∀ key ∈ root.nodes,
    (∃ site, provenance core context (profilePath key.scalar) key = .ok site) →
    ∀ index, ∀ entry ∈ root.nodes, ∃ site, provenance core context
      (indexed (profilePath key.scalar ++ ascii ".members") index) entry = .ok site
  member : ∀ subject site, ∃ member, core.profileMemberDeclaration subject site = .ok member

section

variable {root : Node}

theorem Node.Text.unique {node : Node} {key text other : Bytes} (h : node.Text key text)
    (hother : node.Text key other) : text = other := by
  obtain ⟨child, hfield, -, rfl⟩ := h
  obtain ⟨child', hfield', -, rfl⟩ := hother
  rw [hfield, Option.some.injEq] at hfield'
  rw [hfield']

theorem Node.Text.ne_none {node : Node} {key text : Bytes} (h : node.Text key text) :
    node.field? key ≠ none := by
  obtain ⟨child, hfield, -⟩ := h
  rw [hfield]
  exact Option.some_ne_none child

theorem IsSubject.unique {node : Node} {subject other : core.RequirementSubject}
    (h : IsSubject core node subject) (hother : IsSubject core node other) : subject = other := by
  cases h with
  | package name _ hpackage hprofile haccepted =>
      cases hother with
      | package name' _ hpackage' _ haccepted' =>
          rw [hpackage.unique hpackage', haccepted'] at haccepted
          exact (Except.ok.inj haccepted).symm
      | profile _ _ hpackage' _ _ => exact absurd hpackage' hpackage.ne_none
  | profile name _ hpackage hprofile haccepted =>
      cases hother with
      | package _ _ hpackage' _ _ => exact absurd hpackage hpackage'.ne_none
      | profile name' _ _ hprofile' haccepted' =>
          rw [hprofile.unique hprofile', haccepted'] at haccepted
          exact (Except.ok.inj haccepted).symm

theorem IsMember.unique {path : Bytes} {entry : Node} {member other : core.ProfileMemberDeclaration}
    (h : IsMember core context path entry member)
    (hother : IsMember core context path entry other) : member = other := by
  obtain ⟨subject, site, hsubject, hsite, haccepted⟩ := h
  obtain ⟨subject', site', hsubject', hsite', haccepted'⟩ := hother
  rw [hsite, Except.ok.injEq] at hsite'
  rw [hsubject.unique hsubject', hsite', haccepted'] at haccepted
  exact (Except.ok.inj haccepted).symm

theorem IsMembers.unique {key : Bytes} {definition : Node}
    {members others : List core.ProfileMemberDeclaration}
    (h : IsMembers core context key definition members)
    (hothers : IsMembers core context key definition others) : members = others := by
  obtain ⟨list, hlist, -, hitems⟩ := h.members
  obtain ⟨list', hlist', -, hitems'⟩ := hothers.members
  rw [hlist, Option.some.injEq] at hlist'
  subst hlist'
  refine List.right_unique_forall₂' ?_ hitems hitems'
  intro entry left right hleft hright
  exact IsMember.unique hleft hright

theorem exists_isProfile_iff (h : UnguardedProfiles core context root) {key definition : Node}
    (hkey : key ∈ root.nodes) (hdefinition : definition ∈ root.nodes) :
    (∃ declaration, IsProfile core context key definition declaration) ↔
      ProfileDocument core context key definition := by
  have hmembers : ∀ {list : Node}, definition.field? (ascii "members") = some list →
      (∃ site, provenance core context (profilePath key.scalar) key = .ok site) →
      ((∃ members, IsItems (fun index => IsMember core context
        (indexed (profilePath key.scalar ++ ascii ".members") index)) list members) ↔
        SubjectSequence core list) := by
    intro list hlist hadmitted
    refine exists_declared_iff (fun index entry hentry => ?_) h.member
    exact h.site key hkey hadmitted index entry
      (root.child_mem_nodes (field_mem_nodes hdefinition hlist) hentry)
  constructor
  · rintro ⟨declaration, reference, site, members, hreference, hsite,
      ⟨hkeys, list, hlist, hitems⟩, haccepted⟩
    refine ⟨⟨reference, hreference⟩, ⟨site, hsite⟩, hkeys,
      ⟨list, hlist, (hmembers hlist ⟨site, hsite⟩).mp ⟨members, hitems⟩⟩, ?_⟩
    intro reference' site' members' hreference' hsite' hmembers'
    rw [hreference, Except.ok.injEq] at hreference'
    rw [hsite, Except.ok.injEq] at hsite'
    rw [← hreference', ← hsite', hmembers'.unique ⟨hkeys, list, hlist, hitems⟩]
    exact ⟨declaration, haccepted⟩
  · intro hdocument
    obtain ⟨reference, hreference⟩ := hdocument.reference
    obtain ⟨site, hsite⟩ := hdocument.site
    obtain ⟨list, hlist, hsubjects⟩ := hdocument.members
    obtain ⟨members, hitems⟩ := (hmembers hlist ⟨site, hsite⟩).mpr hsubjects
    obtain ⟨declaration, haccepted⟩ := hdocument.accepted reference site members hreference hsite
      ⟨hdocument.keys, list, hlist, hitems⟩
    exact ⟨declaration, reference, site, members, hreference, hsite,
      ⟨hdocument.keys, list, hlist, hitems⟩, haccepted⟩

theorem exists_isProfiles_iff (h : UnguardedProfiles core context root) :
    (∃ declarations, IsProfiles core context root declarations) ↔
      ProfilesDocument core context root := by
  have hentries : ∀ {node : Node}, root.field? (ascii "profiles") = some node →
      ((∃ declarations, IsEntries (IsProfile core context) node declarations) ↔
        node.kind = .mapping ∧
          ∀ pair ∈ node.pairs, ProfileDocument core context pair.1 pair.2) := by
    intro node hnode
    rw [exists_isEntries_iff]
    refine and_congr_right fun _ => forall₂_congr fun pair hpair => ?_
    have hinner := root.pair_mem_nodes (field_mem_nodes root.self_mem_nodes hnode) hpair
    exact exists_isProfile_iff h hinner.1 hinner.2
  constructor
  · rintro ⟨declarations, hkeys, hformat, node, hnode, hdeclarations⟩
    exact ⟨hkeys, hformat, node, hnode, (hentries hnode).mp ⟨_, hdeclarations⟩⟩
  · rintro ⟨hkeys, hformat, node, hnode, hpairs⟩
    obtain ⟨declarations, hdeclarations⟩ := (hentries hnode).mpr hpairs
    exact ⟨declarations, hkeys, hformat, node, hnode, hdeclarations⟩

end

/-- **Profiles grammar.** On every tree `parse_document` returns and for every `libpkgsource` whose
unguarded calls succeed, `parse_profiles_yaml` succeeds exactly on profiles documents, and returns
one declaration for each key in document order, with the members of its own sequence in sequence
order. -/
theorem parseProfilesYaml_exact (core : Core) (context : Context) (input : Input)
    (limits : ParseLimits) {root : Node}
    (hroot : documentOutcome input context.origin limits = .ok root)
    (hunguarded : UnguardedProfiles core context root) :
    ((∃ declarations, parseProfilesYaml core context input limits = .ok declarations) ↔
      ProfilesDocument core context root) ∧
    ∀ declarations, parseProfilesYaml core context input limits = .ok declarations ↔
      IsProfiles core context root declarations := by
  have hvalid := valid_of_documentOutcome hroot
  have hcontent : ∀ declarations,
      parseProfilesYaml core context input limits = .ok declarations ↔
        IsProfiles core context root declarations := by
    intro declarations
    rw [parseProfilesYaml, outcome_eq_ok_iff hroot, profilesValue_eq_ok_iff hvalid]
  refine ⟨?_, hcontent⟩
  rw [← exists_isProfiles_iff hunguarded]
  exact exists_congr hcontent

def smallProfiles : EventTree :=
  .fields
    [("format", .text "zeppe-lin.profiles/1"),
      ("profiles", .fields [("base", .fields [("members",
        .items [.fields [("package", .text "libc")], .fields [("profile", .text "@core")]])])])]

theorem parseProfilesYaml_exact_small :
    ProfilesDocument Core.permissive ⟨⟨ascii "profiles.yaml"⟩, false⟩ smallProfiles.toNode :=
  (parseProfilesYaml_exact Core.permissive ⟨⟨ascii "profiles.yaml"⟩, false⟩
    (.spelling 120 smallProfiles) {} rfl
    ⟨fun _ _ _ _ _ _ => ⟨(), rfl⟩, fun _ _ => ⟨(), rfl⟩⟩).1.mp ⟨[()], rfl⟩

end PkgsourceYaml
