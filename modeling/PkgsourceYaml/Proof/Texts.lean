import PkgsourceYaml.Texts
import PkgsourceYaml.Library.Portions
import PkgsourceYaml.Proof.Limits
import PkgsourceYaml.Proof.Plan

/-!
# Nothing is invented, and nothing is used twice

Each section of a plan draws its texts from the part of the tree it is read from, and different
sections are read from different parts.
-/

namespace PkgsourceYaml

open Pairing Portions Throwing

variable {context : Context} {node root : Node} {path : Bytes}

/-! ### Texts of trees -/

theorem Node.texts_eq (node : Node) :
    node.texts = (if node.kind = .scalar then [node.scalar] else []) ++
      node.children.flatMap Node.texts := by
  have hchildren : ((node.children.flatMap Node.nodes).filter fun inner => inner.kind = .scalar).map
      Node.scalar = node.children.flatMap Node.texts := by
    rw [List.filter_flatMap, List.map_flatMap]
    rfl
  rw [Node.texts, Node.nodes_eq]
  by_cases hkind : node.kind = .scalar
  · rw [List.filter_cons_of_pos (by simpa using hkind), if_pos hkind, List.map_cons, hchildren]
    rfl
  · rw [List.filter_cons_of_neg (by simpa using hkind), if_neg hkind, hchildren]
    rfl

theorem Node.IsText.drawn {text : Bytes} (h : node.IsText text) : [text].Subperm node.texts := by
  rw [Node.texts_eq, if_pos h.1, h.2]
  exact (List.sublist_append_left _ _).subperm

theorem texts_of_collection (h : node.kind ≠ .scalar) :
    node.texts = node.children.flatMap Node.texts := by
  rw [Node.texts_eq, if_neg h, List.nil_append]

/-- The texts of a mapping are those of its keys and its values, pair by pair. -/
theorem texts_of_mapping (hvalid : node.Valid) (hkind : node.kind = .mapping) :
    node.texts = node.pairs.flatMap fun pair => pair.1.texts ++ pair.2.texts := by
  rw [texts_of_collection (by simp [hkind]), Node.pairs]
  refine even_induction (motive := fun list => list.flatMap Node.texts =
    (pairs list).flatMap fun pair => pair.1.texts ++ pair.2.texts) rfl ?_ (hvalid.even hkind)
  intro key value rest _ ih
  rw [pairs_cons_cons, List.flatMap_cons, List.flatMap_cons, List.flatMap_cons, ih,
    List.append_assoc]

/-- The texts of what is under a key. -/
def Node.textsUnder (node : Node) (key : Bytes) : List Bytes :=
  (node.field? key).elim [] Node.texts

/-- Parts drawn from under different keys of a mapping are drawn from the mapping. -/
theorem drawn_of_keys (hvalid : node.Valid) (hkind : node.kind = .mapping) {keys : List Bytes}
    {parts : List (List Bytes)} (hkeys : keys.Nodup)
    (h : List.Forall₂ (fun key part => part.Subperm (node.textsUnder key)) keys parts) :
    parts.flatten.Subperm node.texts := by
  rw [texts_of_mapping hvalid hkind]
  refine subperm_flatten_of_keys (fun pair : Node × Node => pair.1.scalar) hkeys ?_
  refine h.imp fun key part hpart => hpart.trans ?_
  rw [Node.textsUnder, Node.field?_eq hkind]
  cases node.pairs.find? (·.1.scalar = key) with
  | none => exact List.Subperm.refl []
  | some pair => exact (List.sublist_append_right _ _).subperm

theorem drawn_field {child : Node} {key : Bytes} {part : List Bytes}
    (hfield : node.field? key = some child) (h : part.Subperm child.texts) :
    part.Subperm (node.textsUnder key) := by
  rw [Node.textsUnder, hfield]
  exact h

theorem drawn_text {key text : Bytes} (h : node.Text key text) :
    [text].Subperm (node.textsUnder key) := by
  obtain ⟨child, hfield, htext⟩ := h
  exact drawn_field hfield htext.drawn

theorem drawn_optional {α : Type} {Reads : Node → α → Prop} {absent value : α} {key : Bytes}
    {texts : α → List Bytes} (hvalid : node.Valid) (habsent : texts absent = [])
    (hreads : ∀ child, child.Valid → Reads child value → (texts value).Subperm child.texts)
    (h : IsOptional Reads absent (node.field? key) value) :
    (texts value).Subperm (node.textsUnder key) := by
  cases hfield : node.field? key with
  | none =>
      rw [hfield] at h
      obtain rfl : value = absent := h
      rw [habsent]
      exact List.nil_subperm
  | some child =>
      rw [hfield] at h
      exact drawn_field hfield (hreads child (hvalid.field hfield) h)

theorem drawn_items {α : Type} {Reads : Nat → Node → α → Prop} {values : List α}
    {texts : α → List Bytes} (hvalid : node.Valid)
    (hreads : ∀ index entry value, entry.Valid → Reads index entry value →
      (texts value).Subperm entry.texts)
    (h : IsItems Reads node values) : (values.flatMap texts).Subperm node.texts := by
  obtain ⟨hkind, hentries⟩ := h
  have hchildren : node.texts = node.children.zipIdx.flatMap fun entry => entry.1.texts := by
    rw [texts_of_collection (by simp [hkind])]
    conv_lhs => rw [← List.zipIdx_map_fst 0 node.children]
    rw [List.flatMap_map]
  rw [hchildren]
  refine subperm_flatMap_of_forall₂ (Entrywise.forall₂_imp_mem ?_ hentries)
  intro entry hentry value _ hvalue
  have hchild : entry.1 ∈ node.children := (List.mem_zipIdx' hentry).2 ▸ List.getElem_mem _
  exact hreads entry.2 entry.1 value (hvalid.item hkind hchild) hvalue

theorem drawn_entries {α : Type} {Reads : Node → Node → α → Prop} {values : List α}
    {texts : α → List Bytes} (hvalid : node.Valid)
    (hreads : ∀ key child value, key.kind = .scalar → child.Valid → Reads key child value →
      (texts value).Subperm (key.scalar :: child.texts))
    (h : IsEntries Reads node values) : (values.flatMap texts).Subperm node.texts := by
  obtain ⟨hkind, hentries⟩ := h
  rw [texts_of_mapping hvalid hkind]
  refine subperm_flatMap_of_forall₂ (Entrywise.forall₂_imp_mem ?_ hentries)
  intro pair hpair value _ hvalue
  have hkey := (hvalid.admitted hkind).scalar pair hpair
  refine (hreads pair.1 pair.2 value hkey (hvalid.pair hkind hpair) hvalue).trans ?_
  have hscalar : [pair.1.scalar].Subperm pair.1.texts := Node.IsText.drawn ⟨hkey, rfl⟩
  exact hscalar.append (List.Subperm.refl _)

/-! ### Sections -/

theorem drawn_subject {subject : Core.recording.RequirementSubject} (hvalid : node.Valid)
    (h : IsSubject Core.recording node subject) : [subjectText subject].Subperm node.texts := by
  cases h with
  | package name keys hpackage hprofile haccepted =>
      obtain rfl := Except.ok.inj haccepted
      exact drawn_of_keys hvalid keys.1 (List.nodup_singleton (ascii "package"))
        (List.Forall₂.cons (drawn_text hpackage) List.Forall₂.nil)
  | profile name keys hpackage hprofile haccepted =>
      obtain rfl := Except.ok.inj haccepted
      exact drawn_of_keys hvalid keys.1 (List.nodup_singleton (ascii "profile"))
        (List.Forall₂.cons (drawn_text hprofile) List.Forall₂.nil)

theorem drawn_requirementSequence {name : ScopeName}
    {plans : List Core.recording.RequirementDeclaration} (hvalid : node.Valid)
    (h : IsRequirementSequence Core.recording context path (name.scope Core.recording) node plans) :
    (plans.map requirementText).Subperm node.texts := by
  obtain ⟨scope, -, hitems⟩ := h
  rw [List.map_eq_flatMap]
  refine drawn_items hvalid (fun index entry plan hentry hplan => ?_) hitems
  obtain ⟨subject, site, hsubject, -, hdeclared⟩ := hplan
  obtain rfl := Except.ok.inj hdeclared
  exact drawn_subject hentry hsubject

theorem drawn_lifecycleRequirements {groups : List (List Core.recording.RequirementDeclaration)}
    (hvalid : node.Valid) (h : IsLifecycleRequirements Core.recording context path node groups) :
    (groups.flatten.map requirementText).Subperm node.texts := by
  have hgroups : groups.flatten.map requirementText =
      groups.flatMap (List.map requirementText) := by
    rw [List.map_flatten, List.flatMap]
  rw [hgroups]
  refine drawn_entries hvalid (fun key subjects group _ hsubjects hgroup => ?_) h
  obtain ⟨action, -, hsequence⟩ := hgroup
  have hdrawn := @drawn_requirementSequence _ _ _ (.lifecycle action) group hsubjects hsequence
  exact hdrawn.cons_right key.scalar

theorem drawn_requirements {groups : RequirementGroups Core.recording} (hvalid : node.Valid)
    (h : IsRequirements Core.recording context path node groups) :
    ((groups.flatten Core.recording).map requirementText).Subperm node.texts := by
  have hscope : ∀ (name : ScopeName) (key : Bytes)
      (plans : List Core.recording.RequirementDeclaration),
      IsOptional (IsRequirementSequence Core.recording context (childPath path key)
        (name.scope Core.recording)) [] (node.field? key) plans →
      (plans.map requirementText).Subperm (node.textsUnder key) :=
    fun name key plans hplans => drawn_optional hvalid rfl
      (fun child hchild hsequence => drawn_requirementSequence hchild hsequence) hplans
  have hlifecycle : (groups.lifecycle.flatten.map requirementText).Subperm
      (node.textsUnder (ascii "lifecycle")) :=
    @drawn_optional node _ _ _ _ _ (fun groups => groups.flatten.map requirementText) hvalid rfl
      (fun child hchild hblocks => drawn_lifecycleRequirements hchild hblocks) h.lifecycle
  have hdrawn := drawn_of_keys hvalid h.keys.1
    (by decide : [ascii "build", ascii "run", ascii "check", ascii "lifecycle"].Nodup)
    (.cons (hscope .build _ _ h.build) (.cons (hscope .run _ _ h.run)
      (.cons (hscope .check _ _ h.check) (.cons hlifecycle .nil))))
  simpa only [RequirementGroups.flatten, List.map_append, List.flatten_cons, List.flatten_nil,
    List.append_nil, List.append_assoc] using hdrawn

theorem drawn_program {program : Core.recording.Program} (hvalid : node.Valid)
    (h : IsProgram Core.recording node program) : [programText program].Subperm node.texts := by
  obtain ⟨keys, -, material, hmaterial, haccepted⟩ := h
  obtain rfl := Except.ok.inj haccepted
  exact drawn_of_keys hvalid keys.1 (List.nodup_singleton (ascii "script"))
    (List.Forall₂.cons (drawn_text hmaterial) List.Forall₂.nil)

theorem drawn_lifecycle {programs : List Core.recording.LifecycleProgram} (hvalid : node.Valid)
    (h : IsLifecycle Core.recording node programs) :
    (programs.flatMap lifecycleTexts).Subperm node.texts := by
  refine drawn_entries hvalid (fun key programNode lifecycleProgram _ hprogramNode hread => ?_) h
  obtain ⟨action, program, hname, hprogram, haccepted⟩ := hread
  obtain rfl := Except.ok.inj haccepted
  rw [hname]
  exact (List.subperm_cons _).mpr (drawn_program hprogramNode hprogram)

theorem drawn_architectureList {references : List Core.recording.ArchitectureReference}
    (hvalid : node.Valid) (h : IsArchitectureList Core.recording node references) :
    List.Subperm (references : List Bytes) node.texts := by
  have hdrawn := @drawn_items node _ _ references (fun reference => [(reference : Bytes)]) hvalid
    (fun index entry reference _ hreference => ?_) h
  · have hflat := List.flatMap_singleton' (references : List Bytes)
    exact (List.Perm.of_eq hflat.symm).subperm.trans hdrawn
  · obtain ⟨name, hname, haccepted⟩ := hreference
    obtain rfl := Except.ok.inj haccepted
    exact hname.drawn

theorem drawn_architectures {architectures : Core.recording.ArchitectureRequirements}
    (hvalid : node.Valid) (h : IsArchitectures Core.recording node architectures) :
    (architectureTexts architectures).Subperm node.texts := by
  obtain ⟨keys, build, target, hbuild, htarget, haccepted⟩ := h
  obtain rfl := Except.ok.inj haccepted
  have hlist : ∀ (key : Bytes) (references : List Core.recording.ArchitectureReference),
      IsOptional (IsArchitectureList Core.recording) [] (node.field? key) references →
      List.Subperm (references : List Bytes) (node.textsUnder key) :=
    fun key references hreferences => @drawn_optional node _ _ _ references key id hvalid rfl
      (fun child hchild hlisted => drawn_architectureList hchild hlisted) hreferences
  have hdrawn := drawn_of_keys hvalid keys.1 (by decide : architectureKeys.Nodup)
    (.cons (hlist _ _ hbuild) (.cons (hlist _ _ htarget) .nil))
  have hparts : architectureTexts (build, target) = [(build : List Bytes), target].flatten :=
    congrArg (List.append (build : List Bytes)) (List.append_nil (target : List Bytes)).symm
  rw [hparts]
  exact hdrawn

theorem drawn_source {source : Core.recording.SourceInput} (hvalid : node.Valid)
    (h : IsSource Core.recording node source) : (sourceTexts source).Subperm node.texts := by
  obtain ⟨keys, name, hash, content, unpack, hname, hhash, hcontent, -, hlocated⟩ := h
  obtain rfl := Except.ok.inj hcontent
  cases hlocated with
  | url locator hurl hpath haccepted =>
      obtain rfl := Except.ok.inj haccepted
      exact drawn_of_keys hvalid keys.1
        (by decide : [ascii "name", ascii "sha256", ascii "url"].Nodup)
        (.cons (drawn_text hname) (.cons (drawn_text hhash) (.cons (drawn_text hurl) .nil)))
  | path locator hurl hpath haccepted =>
      obtain rfl := Except.ok.inj haccepted
      exact drawn_of_keys hvalid keys.1
        (by decide : [ascii "name", ascii "sha256", ascii "path"].Nodup)
        (.cons (drawn_text hname) (.cons (drawn_text hhash) (.cons (drawn_text hpath) .nil)))

theorem drawn_sources {sources : List Core.recording.SourceInput} (hvalid : node.Valid)
    (h : IsSources Core.recording node sources) :
    (sources.flatMap sourceTexts).Subperm node.texts :=
  drawn_items hvalid (fun _ _ _ hentry hsource => drawn_source hentry hsource) h

/-- The package mapping is read twice, for different keys. -/
theorem drawn_package {release : Core.recording.PackageRelease}
    {metadata : Core.recording.PackageMetadata} (hvalid : node.Valid)
    (hrelease : IsRelease Core.recording node release)
    (hmetadata : IsMetadata Core.recording node metadata) :
    (releaseTexts release ++ metadataTexts metadata).Subperm node.texts := by
  obtain ⟨name, version, number, hfields, hreleased⟩ := hrelease
  obtain ⟨text, htext, -, rfl⟩ := hfields.release
  obtain ⟨summary, description, homepage, licenses, hdescribed, hmade⟩ := hmetadata
  obtain ⟨list, hlist, hitems⟩ := hdescribed.licenses
  obtain rfl := Except.ok.inj hreleased
  obtain rfl := Except.ok.inj hmade
  have hoptional : ∀ (key : Bytes) (found : Option Bytes),
      IsOptional IsOptionalText none (node.field? key) found →
      found.toList.Subperm (node.textsUnder key) := by
    intro key found hfound
    refine drawn_optional hvalid rfl (fun child _ hchild => ?_) hfound
    obtain ⟨text, htext, rfl⟩ := hchild
    exact htext.drawn
  have hlicenses : licenses.Subperm (node.textsUnder (ascii "licenses")) := by
    have hdrawn := drawn_items (hvalid.field hlist)
      (fun _ entry license _ hlicense => Node.IsText.drawn hlicense) hitems
    rw [List.flatMap_singleton'] at hdrawn
    exact drawn_field hlist hdrawn
  have hdrawn := drawn_of_keys hvalid hfields.keys.1 (by decide : packageKeys.Nodup)
    (.cons (drawn_text hfields.name) (.cons (drawn_text hfields.version) (.cons (drawn_text htext)
      (.cons (drawn_text hdescribed.summary) (.cons (hoptional _ _ hdescribed.description)
        (.cons (hoptional _ _ hdescribed.homepage) (.cons hlicenses .nil)))))))
  simpa [releaseTexts, metadataTexts] using hdrawn

theorem drawn_check {check : Option Core.recording.Program} (hvalid : node.Valid)
    (h : IsOptional (fun node check => ∃ program, IsProgram Core.recording node program ∧
      check = some program) none (node.field? (ascii "check")) check) :
    (checkTexts check).Subperm (node.textsUnder (ascii "check")) := by
  refine drawn_optional hvalid rfl (fun child hchild hread => ?_) h
  obtain ⟨program, hprogram, rfl⟩ := hread
  exact drawn_program hchild hprogram

theorem drawn_recipeArchitectures {architectures : Core.recording.ArchitectureRequirements}
    (hvalid : root.Valid) (h : IsRecipeArchitectures Core.recording root architectures) :
    (architectureTexts architectures).Subperm (root.textsUnder (ascii "architectures")) := by
  unfold IsRecipeArchitectures at h
  cases hfield : root.field? (ascii "architectures") with
  | none =>
      rw [hfield] at h
      obtain rfl := Except.ok.inj h
      exact List.nil_subperm
  | some node =>
      rw [hfield] at h
      exact drawn_field hfield (drawn_architectures (hvalid.field hfield) h)

/-! ### Both grammars -/

theorem drawn_recipe {fields : RecipeFields Core.recording}
    {plan : Core.recording.RecipeDeclaration} (hvalid : root.Valid)
    (h : IsRecipe Core.recording context root fields)
    (hplan : fields.declare Core.recording = .ok plan) :
    (recipeTexts plan).Subperm root.texts := by
  obtain ⟨package, hpackage, -, hrelease, hmetadata⟩ := h.package
  obtain ⟨requirements, hrequirements, hgroups⟩ := h.requirements
  obtain ⟨sources, hsources, hlist⟩ := h.sources
  obtain ⟨build, hbuild, hprogram⟩ := h.build
  obtain rfl := Except.ok.inj hplan
  have hlifecycle : (fields.lifecycle.flatMap lifecycleTexts).Subperm
      (root.textsUnder (ascii "lifecycle")) :=
    @drawn_optional root _ _ _ _ _ (fun programs => programs.flatMap lifecycleTexts) hvalid rfl
      (fun child hchild hprograms => drawn_lifecycle hchild hprograms) h.lifecycle
  have hdrawn := drawn_of_keys hvalid h.keys.1
    (by decide : [ascii "package", ascii "sources", ascii "build", ascii "requirements",
      ascii "lifecycle", ascii "architectures", ascii "check"].Nodup)
    (.cons (drawn_field hpackage (drawn_package (hvalid.field hpackage) hrelease hmetadata))
      (.cons (drawn_field hsources (drawn_sources (hvalid.field hsources) hlist))
      (.cons (drawn_field hbuild (drawn_program (hvalid.field hbuild) hprogram))
      (.cons (drawn_field hrequirements (drawn_requirements (hvalid.field hrequirements) hgroups))
      (.cons hlifecycle
      (.cons (drawn_recipeArchitectures hvalid h.architectures)
      (.cons (drawn_check hvalid h.check) .nil)))))))
  simpa only [recipeTexts, List.flatten_cons, List.flatten_nil, List.append_nil,
    List.append_assoc] using hdrawn

theorem drawn_member {plan : Core.recording.ProfileMemberDeclaration} (hvalid : node.Valid)
    (h : IsMember Core.recording context path node plan) :
    [memberText plan].Subperm node.texts := by
  obtain ⟨subject, site, hsubject, -, hdeclared⟩ := h
  obtain rfl := Except.ok.inj hdeclared
  exact drawn_subject hvalid hsubject

theorem drawn_profiles {plans : List Core.recording.ProfileDeclaration} (hvalid : root.Valid)
    (h : IsProfiles Core.recording context root plans) :
    (profilesTexts plans).Subperm root.texts := by
  obtain ⟨keys, -, profiles, hprofiles, hentries⟩ := h
  have hdrawn : (profilesTexts plans).Subperm profiles.texts := by
    refine drawn_entries (hvalid.field hprofiles) (fun key definition plan _ hdefinition hread =>
      ?_) hentries
    obtain ⟨reference, site, members, hreference, -, hmembers, hdeclared⟩ := hread
    obtain ⟨hkeys, list, hlist, hitems⟩ := hmembers
    obtain rfl := Except.ok.inj hdeclared
    obtain rfl := Except.ok.inj hreference
    have hnames : (members.map memberText).Subperm list.texts := by
      rw [List.map_eq_flatMap]
      exact drawn_items (hdefinition.field hlist)
        (fun _ _ _ hentry hmember => drawn_member hentry hmember) hitems
    have hlisted := drawn_of_keys hdefinition hkeys.1 (List.nodup_singleton (ascii "members"))
      (.cons (drawn_field hlist hnames) .nil)
    rw [List.flatten_cons, List.flatten_nil, List.append_nil] at hlisted
    exact (List.subperm_cons key.scalar).mpr hlisted
  have hroot := drawn_of_keys hvalid keys.1 (List.nodup_singleton (ascii "profiles"))
    (.cons (drawn_field hprofiles hdrawn) .nil)
  rwa [List.flatten_cons, List.flatten_nil, List.append_nil] at hroot

/-- What is drawn from a tree that was read keeps within the ceilings it was read under. -/
theorem drawn_of_documentOutcome {input : Input} {origin : SourceOrigin} {limits : ParseLimits}
    {texts : List Bytes} (hroot : documentOutcome input origin limits = .ok root)
    (h : texts.Subperm root.texts) : Drawn limits root texts := by
  obtain ⟨hbytes, document, hstrict, -, rfl⟩ := documentOutcome_eq_ok_iff_strict.mp hroot
  have hcovers := (@strict_iff_covers input limits document hstrict limits).mp ⟨hbytes, hstrict⟩
  refine ⟨h, ?_, fun text htext => ?_⟩
  · calc
      texts.length ≤ document.root.toNode.texts.length := h.length_le
      _ ≤ document.root.toNode.nodes.length := by
        rw [Node.texts, List.length_map]
        exact List.length_filter_le _ _
      _ ≤ limits.maximumNodes := hcovers.nodes
  · obtain ⟨inner, hinner, rfl⟩ := List.mem_map.mp (h.subset htext)
    exact longestScalar_le_iff.mp hcovers.scalarBytes inner (List.mem_of_mem_filter hinner)

/-- **Nothing is invented, and nothing is used twice.** The texts of the plan of a document, its
names, locators, hashes, programs and descriptions, are those of different scalars of the document,
whatever the order in which the arguments of a recipe are evaluated. There are no more of them than
the node ceiling allows, and none is longer than the scalar ceiling. -/
theorem texts_drawn_once (context : Context) (order : EvaluationOrder) (input : Input)
    (limits : ParseLimits) (root : Node)
    (hroot : documentOutcome input context.origin limits = .ok root) :
    (∀ plan, recipeValue Core.recording context order root = .ok plan →
      Drawn limits root (recipeTexts plan)) ∧
    ∀ plans, profilesValue Core.recording context root = .ok plans →
      Drawn limits root (profilesTexts plans) := by
  have hvalid := valid_of_documentOutcome hroot
  constructor
  · intro plan hplan
    obtain ⟨fields, hrecipe, hdeclared⟩ := (recipeValue_eq_ok_iff hvalid).mp hplan
    exact drawn_of_documentOutcome hroot (drawn_recipe hvalid hrecipe hdeclared)
  · intro plans hplans
    exact drawn_of_documentOutcome hroot
      (drawn_profiles hvalid ((profilesValue_eq_ok_iff hvalid).mp hplans))

theorem texts_drawn_once_restricted :
    Drawn {} (restrictedRecipe targetAndEmptyBuild).toNode (recipeTexts restrictedDeclaration) :=
  (texts_drawn_once ⟨⟨ascii "recipe.yaml"⟩, false⟩ .textual
    (.spelling 310 (restrictedRecipe targetAndEmptyBuild)) {} _ rfl).1 _ rfl

end PkgsourceYaml
