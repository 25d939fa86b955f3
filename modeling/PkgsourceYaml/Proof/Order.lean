import PkgsourceYaml.Proof.Twins

/-!
# Mapping order is irrelevant

What the two grammars read from a tree, they read from every reordering of it; only the values of
mappings with free keys follow the order of their keys.
-/

namespace PkgsourceYaml

open Pairing Entrywise Throwing

variable {core : Core} {context : Context} {root root' : Node}

/-! ### Recipes -/

theorem Twin.isRecipeArchitectures (h : Twin root root') (hkind : root.kind = .mapping)
    {architectures : core.ArchitectureRequirements}
    (harchitectures : IsRecipeArchitectures core root architectures) :
    IsRecipeArchitectures core root' architectures := by
  unfold IsRecipeArchitectures at harchitectures ⊢
  cases hfield : root.field? (ascii "architectures") with
  | none =>
      rw [hfield] at harchitectures
      rw [h.field_none hkind hfield]
      exact harchitectures
  | some node =>
      rw [hfield] at harchitectures
      obtain ⟨node', hfield', htwin⟩ := h.field hkind hfield
      rw [hfield']
      exact htwin.isArchitectures harchitectures

theorem Twin.isRecipe (h : Twin root root') {fields : RecipeFields core}
    (hfields : IsRecipe core context root fields) :
    ∃ fields', IsRecipe core context root' fields' ∧ SameRecipe core root root' fields fields' := by
  have hkind := hfields.keys.1
  obtain ⟨package, hpackage, hmapping, hrelease, hmetadata⟩ := hfields.package
  obtain ⟨package', hpackage', hpackageTwin⟩ := h.field hkind hpackage
  obtain ⟨requirements, hrequirements, hgroups⟩ := hfields.requirements
  obtain ⟨requirements', hrequirements', hrequirementsTwin⟩ := h.field hkind hrequirements
  obtain ⟨groups, hgroups', hgroupOrder⟩ := hrequirementsTwin.isRequirements hgroups
  obtain ⟨sources, hsources, hlist⟩ := hfields.sources
  obtain ⟨sources', hsources', hsourcesTwin⟩ := h.field hkind hsources
  obtain ⟨build, hbuild, hprogram⟩ := hfields.build
  obtain ⟨build', hbuild', hbuildTwin⟩ := h.field hkind hbuild
  obtain ⟨lifecycle, hlifecycle, hlifecycleOrder⟩ := h.isOptionalEntries hkind
    (fun _ _ _ _ _ hkey htwin ⟨action, program, hname, hprogram, haccepted⟩ =>
      ⟨action, program, hkey.same.2.2.trans hname, htwin.isProgram hprogram, haccepted⟩)
    hfields.lifecycle
  refine ⟨{ fields with
      lifecycle := lifecycle
      requirements := { fields.requirements with lifecycle := groups } }, ?_,
    rfl, hlifecycleOrder, requirements, requirements', hrequirements, hrequirements', hgroupOrder⟩
  exact ⟨h.hasKeys hfields.keys, h.text hkind hfields.format,
    ⟨package', hpackage', hpackageTwin.kind.trans hmapping, hpackageTwin.isRelease hrelease,
      hpackageTwin.isMetadata hmapping hmetadata⟩,
    ⟨requirements', hrequirements', hgroups'⟩,
    ⟨sources', hsources', hsourcesTwin.isSources hlist⟩,
    ⟨build', hbuild', hbuildTwin.isProgram hprogram⟩,
    h.isOptional hkind (fun _ _ htwin ⟨program, hprogram, hsome⟩ =>
      ⟨program, htwin.isProgram hprogram, hsome⟩) hfields.check,
    hlifecycle, h.isRecipeArchitectures hkind hfields.architectures,
    (h.permuted.provenance _).trans hfields.provenance⟩

theorem Rearranged.perm_values {α : Type} {keys keys' : List Bytes} {values values' : List α}
    (h : Rearranged keys keys' values values') : values.Perm values' := by
  have hvalues : ∀ {keys : List Bytes} {values : List α}, keys.length = values.length →
      (keys.zip values).map Prod.snd = values :=
    fun hlength => List.map_snd_zip (Nat.le_of_eq hlength.symm)
  have hmap := h.perm.map Prod.snd
  rwa [hvalues h.left, hvalues h.right] at hmap

/-- The declarations of two such recipes are accepted together. -/
theorem SameRecipe.declares (h : OrderBlind core) {fields fields' : RecipeFields core}
    (hsame : SameRecipe core root root' fields fields')
    (hdeclared : ∃ declaration, fields.declare core = .ok declaration) :
    ∃ declaration, fields'.declare core = .ok declaration := by
  obtain ⟨_, _, -, -, hgroups⟩ := hsame.groups
  have hrequirements : (fields.requirements.flatten core).Perm
      (fields'.requirements.flatten core) := by
    rw [hsame.rest]
    exact List.Perm.append_left _ hgroups.perm_values.flatten
  rw [hsame.rest] at hrequirements ⊢
  exact h _ _ _ _ _ _ _ _ _ _ _ hrequirements hsame.lifecycle.perm_values hdeclared

/-! ### A tree means one thing

Whatever a decoder returns is read from its node, so a node cannot be read as two values. -/

theorem eq_of_isOptional {α : Type} {Reads : Node → α → Prop} {absent value value' : α}
    {found : Option Node}
    (hunique : ∀ child, found = some child → Reads child value → Reads child value' →
      value = value')
    (h : IsOptional Reads absent found value) (h' : IsOptional Reads absent found value') :
    value = value' := by
  cases found with
  | none => exact h.trans h'.symm
  | some child => exact hunique child rfl h h'

theorem eq_of_ok {α : Type} {x : Except Exception α} {value value' : α} (h : x = .ok value)
    (h' : x = .ok value') : value = value' :=
  Except.ok.inj (h.symm.trans h')

theorem IsRequirementSequence.unique {node : Node} {path : Bytes}
    {scope : Except CoreError core.RequirementScope}
    {declarations declarations' : List core.RequirementDeclaration} (hvalid : node.Valid)
    (h : IsRequirementSequence core context path scope node declarations)
    (h' : IsRequirementSequence core context path scope node declarations') :
    declarations = declarations' :=
  eq_of_ok ((requirementSequence_eq_ok_iff hvalid).mpr h)
    ((requirementSequence_eq_ok_iff hvalid).mpr h')

theorem IsRequirements.unique {node : Node} {path : Bytes} {groups groups' : RequirementGroups core}
    (hvalid : node.Valid) (h : IsRequirements core context path node groups)
    (h' : IsRequirements core context path node groups') : groups = groups' := by
  have hscope : ∀ {key : Bytes} {scope : Except CoreError core.RequirementScope}
      {declarations declarations' : List core.RequirementDeclaration},
      IsOptional (IsRequirementSequence core context (childPath path key) scope) []
        (node.field? key) declarations →
      IsOptional (IsRequirementSequence core context (childPath path key) scope) []
        (node.field? key) declarations' → declarations = declarations' :=
    eq_of_isOptional fun child hchild => IsRequirementSequence.unique (hvalid.field hchild)
  have hlifecycle : groups.lifecycle = groups'.lifecycle := by
    refine eq_of_isOptional (fun child hchild hgroups hgroups' => ?_) h.lifecycle h'.lifecycle
    have hdecode : ∀ {groups : List (List core.RequirementDeclaration)},
        IsLifecycleRequirements core context (childPath path (ascii "lifecycle")) child groups →
        eachPair context child (fun key subjects =>
          actionValue context key.scalar [] key >>= fun action =>
            requirementSequence core context subjects
              (childPath (childPath path (ascii "lifecycle")) key.scalar)
              (core.lifecycleScope action)) = .ok groups := by
      refine fun hgroups => ((isEntries_iff (hvalid.field hchild) ?_).mpr hgroups).2
      intro key subjects group hsubjects
      simp only [bind_eq_ok, actionValue_eq_ok_iff, requirementSequence_eq_ok_iff hsubjects]
    exact eq_of_ok (hdecode hgroups) (hdecode hgroups')
  have hbuild := hscope h.build h'.build
  have hrun := hscope h.run h'.run
  have hcheck := hscope h.check h'.check
  cases groups
  cases groups'
  simp_all

theorem IsRecipe.unique {fields fields' : RecipeFields core} (hvalid : root.Valid)
    (h : IsRecipe core context root fields) (h' : IsRecipe core context root fields') :
    fields = fields' := by
  have hkind := h.keys.1
  have hsame : ∀ {key : Bytes} {node node' : Node}, root.field? key = some node →
      root.field? key = some node' → node = node' :=
    fun hfield hfield' => Option.some.inj (hfield.symm.trans hfield')
  obtain ⟨package, hpackage, hmapping, hrelease, hmetadata⟩ := h.package
  obtain ⟨_, hpackage', -, hrelease', hmetadata'⟩ := h'.package
  obtain rfl := hsame hpackage hpackage'
  obtain ⟨requirements, hrequirements, hgroups⟩ := h.requirements
  obtain ⟨_, hrequirements', hgroups'⟩ := h'.requirements
  obtain rfl := hsame hrequirements hrequirements'
  obtain ⟨sources, hsources, hlist⟩ := h.sources
  obtain ⟨_, hsources', hlist'⟩ := h'.sources
  obtain rfl := hsame hsources hsources'
  obtain ⟨build, hbuild, hprogram⟩ := h.build
  obtain ⟨_, hbuild', hprogram'⟩ := h'.build
  obtain rfl := hsame hbuild hbuild'
  have hpackageValid := hvalid.field hpackage
  have hreleases := eq_of_ok (x := packageReleaseValue core context package)
    ((packageReleaseValue_eq_ok_iff hpackageValid).mpr hrelease)
    ((packageReleaseValue_eq_ok_iff hpackageValid).mpr hrelease')
  have hmetadatas := eq_of_ok (x := packageMetadataValue core context package)
    ((packageMetadataValue_eq_ok_iff hpackageValid hmapping).mpr hmetadata)
    ((packageMetadataValue_eq_ok_iff hpackageValid hmapping).mpr hmetadata')
  have hrequirementGroups := hgroups.unique (hvalid.field hrequirements) hgroups'
  have hsourceLists := eq_of_ok (x := sourcesValue core context sources [])
    ((sourcesValue_eq_ok_iff (hvalid.field hsources)).mpr hlist)
    ((sourcesValue_eq_ok_iff (hvalid.field hsources)).mpr hlist')
  have hprograms := eq_of_ok (x := programValue core context build [])
    ((programValue_eq_ok_iff (hvalid.field hbuild)).mpr hprogram)
    ((programValue_eq_ok_iff (hvalid.field hbuild)).mpr hprogram')
  have hchecks := eq_of_ok (x := checkValue core context root)
    ((checkValue_eq_ok_iff hvalid hkind).mpr h.check)
    ((checkValue_eq_ok_iff hvalid hkind).mpr h'.check)
  have hlifecycles := eq_of_ok (x := lifecyclePrograms core context root)
    ((lifecyclePrograms_eq_ok_iff hvalid hkind).mpr h.lifecycle)
    ((lifecyclePrograms_eq_ok_iff hvalid hkind).mpr h'.lifecycle)
  have harchitectures := eq_of_ok
    (x := findKey context root (ascii "architectures") >>= architecturesValue core context)
    ((recipeArchitectures_eq_ok_iff hvalid hkind).mpr h.architectures)
    ((recipeArchitectures_eq_ok_iff hvalid hkind).mpr h'.architectures)
  have hsites := Except.ok.inj (h.provenance.symm.trans h'.provenance)
  cases fields
  cases fields'
  simp_all

/-! ### Profiles -/

theorem Twin.isProfile {definition definition' : Node} (h : Twin definition definition')
    {key key' : Node} (hkey : Permuted key key') {declaration : core.ProfileDeclaration}
    (hprofile : IsProfile core context key definition declaration) :
    IsProfile core context key' definition' declaration := by
  obtain ⟨reference, site, members, hreference, hsite, ⟨hkeys, list, hlist, hitems⟩, haccepted⟩ :=
    hprofile
  obtain ⟨list', hlist', htwin⟩ := h.field hkeys.1 hlist
  rw [← hkey.same.2.2] at hreference hsite hitems
  refine ⟨reference, site, members, hreference, (hkey.provenance _).trans hsite,
    ⟨h.hasKeys hkeys, list', hlist', htwin.isItems ?_ hitems⟩, haccepted⟩
  rintro index entry entry' member hentry ⟨subject, location, hsubject, hlocation, hmember⟩
  exact ⟨subject, location, hentry.isSubject hsubject,
    (hentry.permuted.provenance _).trans hlocation, hmember⟩

theorem Twin.isProfiles (h : Twin root root') {declarations : List core.ProfileDeclaration}
    (hprofiles : IsProfiles core context root declarations) :
    ∃ declarations', IsProfiles core context root' declarations' ∧
      Rearranged (keysUnder (root.field? (ascii "profiles")))
        (keysUnder (root'.field? (ascii "profiles"))) declarations declarations' := by
  obtain ⟨hkeys, hformat, node, hnode, hentries⟩ := hprofiles
  obtain ⟨node', hnode', htwin⟩ := h.field hkeys.1 hnode
  have hreads : ∀ (key key' definition definition' : Node) (declaration : core.ProfileDeclaration),
      Permuted key key' → Twin definition definition' →
      IsProfile core context key definition declaration →
      IsProfile core context key' definition' declaration :=
    fun _ _ _ _ _ hkey hdefinition => hdefinition.isProfile hkey
  obtain ⟨declarations', hentries', hrearranged⟩ := htwin.isEntries hreads hentries
  rw [hnode, hnode']
  exact ⟨declarations', ⟨h.hasKeys hkeys, h.text hkeys.1 hformat, node', hnode', hentries'⟩,
    hrearranged⟩

/-! ### The entry points -/

theorem Twin.recipeValue_accepts (h : Twin root root') (hblind : OrderBlind core)
    {order order' : EvaluationOrder}
    (haccepted : ∃ declaration, recipeValue core context order root = .ok declaration) :
    ∃ declaration, recipeValue core context order' root' = .ok declaration := by
  obtain ⟨declaration, haccepted⟩ := haccepted
  obtain ⟨fields, hfields, hdeclared⟩ := (recipeValue_eq_ok_iff h.valid).mp haccepted
  obtain ⟨fields', hfields', hsame⟩ := h.isRecipe hfields
  obtain ⟨declaration', hdeclared'⟩ := hsame.declares hblind ⟨declaration, hdeclared⟩
  exact ⟨declaration', (recipeValue_eq_ok_iff h.valid').mpr ⟨fields', hfields', hdeclared'⟩⟩

theorem Twin.profilesValue_accepts (h : Twin root root')
    (haccepted : ∃ declarations, profilesValue core context root = .ok declarations) :
    ∃ declarations, profilesValue core context root' = .ok declarations := by
  obtain ⟨declarations, haccepted⟩ := haccepted
  obtain ⟨declarations', hprofiles', -⟩ :=
    h.isProfiles ((profilesValue_eq_ok_iff h.valid).mp haccepted)
  exact ⟨declarations', (profilesValue_eq_ok_iff h.valid').mpr hprofiles'⟩

/-- **Mapping order.** Let the pairs of any mappings of a tree be put in another order, at any
depth. Key validation accepts both trees or neither. Of trees that it accepts, each grammar accepts
both or neither, for recipes as far as `recipe_declaration` does not mind the order of its lists.
The recipes are built from the same fields, but for the groups of the two lifecycle mappings, which
follow the order of their keys; the profiles are the same, in the order of their keys. -/
theorem mapping_order_irrelevant (core : Core) (context : Context) (order order' : EvaluationOrder)
    {tree tree' : Node} (hpermuted : Permuted tree tree') :
    (∀ path, validateTree context.origin tree path = .ok () ↔
      validateTree context.origin tree' path = .ok ()) ∧
    (validateTree context.origin tree (ascii "$") = .ok () →
      (OrderBlind core → ((∃ declaration, recipeValue core context order tree = .ok declaration) ↔
        ∃ declaration, recipeValue core context order' tree' = .ok declaration)) ∧
      (∀ declaration declaration', recipeValue core context order tree = .ok declaration →
        recipeValue core context order' tree' = .ok declaration' →
        ∃ fields fields', IsRecipe core context tree fields ∧
          IsRecipe core context tree' fields' ∧ fields.declare core = .ok declaration ∧
          fields'.declare core = .ok declaration' ∧ SameRecipe core tree tree' fields fields') ∧
      ((∃ declarations, profilesValue core context tree = .ok declarations) ↔
        ∃ declarations, profilesValue core context tree' = .ok declarations) ∧
      ∀ declarations declarations', profilesValue core context tree = .ok declarations →
        profilesValue core context tree' = .ok declarations' →
        Rearranged (keysUnder (tree.field? (ascii "profiles")))
          (keysUnder (tree'.field? (ascii "profiles"))) declarations declarations') := by
  constructor
  · intro path
    rw [validateTree_eq_ok_iff, validateTree_eq_ok_iff]
    exact ⟨hpermuted.valid, hpermuted.symm.valid⟩
  intro haccepted
  have hvalid := validateTree_eq_ok_iff.mp haccepted
  have htwin : Twin tree tree' := ⟨hpermuted, hvalid, hpermuted.valid hvalid⟩
  refine ⟨fun hblind =>
      ⟨htwin.recipeValue_accepts hblind, htwin.symm.recipeValue_accepts hblind⟩, ?_,
    ⟨htwin.profilesValue_accepts, htwin.symm.profilesValue_accepts⟩, ?_⟩
  · intro declaration declaration' h h'
    obtain ⟨fields, hfields, hdeclared⟩ := (recipeValue_eq_ok_iff htwin.valid).mp h
    obtain ⟨fields', hfields', hdeclared'⟩ := (recipeValue_eq_ok_iff htwin.valid').mp h'
    obtain ⟨others, hothers, hsame⟩ := htwin.isRecipe hfields
    obtain rfl := hothers.unique htwin.valid' hfields'
    exact ⟨fields, others, hfields, hfields', hdeclared, hdeclared', hsame⟩
  · intro declarations declarations' h h'
    obtain ⟨others, hothers, hrearranged⟩ :=
      htwin.isProfiles ((profilesValue_eq_ok_iff htwin.valid).mp h)
    obtain rfl := eq_of_ok ((profilesValue_eq_ok_iff htwin.valid').mpr hothers) h'
    exact hrearranged

/-! ### Two documents in another order -/

theorem toNode_fields (list : List (String × EventTree)) :
    (EventTree.fields list).toNode =
      ⟨.mapping, ⟨1, 1⟩, [], unpairs (list.map fun field =>
        ((EventTree.text field.1).toNode, field.2.toNode))⟩ := by
  rw [EventTree.fields, EventTree.toNode_collection]
  congr 1
  induction list with
  | nil => rfl
  | cons field rest ih =>
      rw [List.flatMap_cons, List.map_append, ih]
      rfl

theorem permuted_fields {list list' : List (String × EventTree)} (h : list.Perm list') :
    Permuted (EventTree.fields list).toNode (EventTree.fields list').toNode := by
  rw [toNode_fields, toNode_fields]
  exact Relation.ReflTransGen.single (.here (h.map _))

/-- The value of one field is reordered, the others stay. -/
theorem permuted_field {before after : List (String × EventTree)} {key : String}
    {value value' : EventTree} (h : Permuted value.toNode value'.toNode) :
    Permuted (EventTree.fields (before ++ (key, value) :: after)).toNode
      (EventTree.fields (before ++ (key, value') :: after)).toNode := by
  have hfields : ∀ child : EventTree,
      (EventTree.fields (before ++ (key, child) :: after)).toNode =
        ⟨.mapping, ⟨1, 1⟩, [],
          ((before.flatMap fun field => [EventTree.text field.1, field.2]).map EventTree.toNode ++
              [(EventTree.text key).toNode]) ++
            child.toNode ::
              (after.flatMap fun field => [.text field.1, field.2]).map EventTree.toNode⟩ := by
    intro child
    rw [EventTree.fields, EventTree.toNode_collection]
    simp
  rw [hfields, hfields]
  exact h.lift (fun child : Node => (⟨.mapping, ⟨1, 1⟩, [], _ ++ child :: _⟩ : Node))
    fun _ _ hshuffles => .inside hshuffles

/-- A recipe with these groups of lifecycle requirements and these lifecycle programs. -/
def lifecycleRecipe (groups programs : List (String × EventTree)) : EventTree :=
  .fields
    [("format", .text "zeppe-lin.recipe/1"),
      ("package", .fields
        [("name", .text "demo"), ("version", .text "1.0"), ("release", .text "1"),
          ("summary", .text "A demo"), ("licenses", .items [.text "MIT"])]),
      ("requirements", .fields [("lifecycle", .fields groups)]),
      ("sources", .items []),
      ("build", .fields [("language", .text "posix-shell"), ("script", .text "make")]),
      ("lifecycle", .fields programs)]

def groupsByAction : List (String × EventTree) :=
  [("pre-install", .items [.fields [("package", .text "libc")]]),
    ("post-remove",
      .items [.fields [("profile", .text "@core")], .fields [("package", .text "sh")]])]

def programsByAction : List (String × EventTree) :=
  [("pre-install", .fields [("language", .text "posix-shell"), ("script", .text "stop")]),
    ("post-install", .fields [("language", .text "posix-shell"), ("script", .text "start")])]

theorem permuted_lifecycleRecipe {groups groups' programs programs' : List (String × EventTree)}
    (hgroups : groups.Perm groups') (hprograms : programs.Perm programs') :
    Permuted (lifecycleRecipe groups programs).toNode
      (lifecycleRecipe groups' programs').toNode := by
  have hrequirements := @permuted_field [] [] "lifecycle" _ _ (permuted_fields hgroups)
  have hfirst : Permuted (lifecycleRecipe groups programs).toNode
      (lifecycleRecipe groups' programs).toNode :=
    @permuted_field [_, _] [_, _, _] "requirements" _ _ hrequirements
  have hsecond : Permuted (lifecycleRecipe groups' programs).toNode
      (lifecycleRecipe groups' programs').toNode :=
    @permuted_field [_, _, _, _, _] [] "lifecycle" _ _ (permuted_fields hprograms)
  exact hfirst.trans hsecond

theorem orderBlind_permissive : OrderBlind Core.permissive :=
  fun _ _ _ _ _ _ _ _ _ _ _ _ _ _ => ⟨(), rfl⟩

def exchangedProfiles : EventTree :=
  .fields
    [("profiles", .fields [("base", .fields [("members",
        .items [.fields [("package", .text "libc")], .fields [("profile", .text "@core")]])])]),
      ("format", .text "zeppe-lin.profiles/1")]

theorem permuted_exchangedProfiles : Permuted smallProfiles.toNode exchangedProfiles.toNode :=
  permuted_fields (List.Perm.swap _ _ [])

/-- A recipe whose two lifecycle mappings are both turned around, and profiles whose format comes
last: both are read as before. -/
theorem mapping_order_irrelevant_exchanged :
    (∃ declaration, recipeValue Core.permissive ⟨⟨ascii "recipe.yaml"⟩, false⟩
      ⟨RecipeArgument.all.reverse, List.reverse_perm _⟩
      (lifecycleRecipe groupsByAction.reverse programsByAction.reverse).toNode =
        .ok declaration) ∧
    ∃ declarations, profilesValue Core.permissive ⟨⟨ascii "profiles.yaml"⟩, false⟩
      exchangedProfiles.toNode = .ok declarations := by
  have hpermuted := permuted_lifecycleRecipe (List.reverse_perm groupsByAction).symm
    (List.reverse_perm programsByAction).symm
  constructor
  · obtain ⟨hrecipe, -⟩ := (mapping_order_irrelevant Core.permissive
      ⟨⟨ascii "recipe.yaml"⟩, false⟩ .textual ⟨RecipeArgument.all.reverse, List.reverse_perm _⟩
      hpermuted).2 rfl
    exact (hrecipe orderBlind_permissive).mp ⟨(), rfl⟩
  · obtain ⟨-, -, hprofiles, -⟩ := (mapping_order_irrelevant Core.permissive
      ⟨⟨ascii "profiles.yaml"⟩, false⟩ .textual .textual permuted_exchangedProfiles).2 rfl
    exact hprofiles.mp ⟨[()], rfl⟩

end PkgsourceYaml
