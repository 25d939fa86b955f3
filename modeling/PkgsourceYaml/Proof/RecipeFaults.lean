import PkgsourceYaml.Proof.Faults
import PkgsourceYaml.Proof.Exactness

/-!
# Faults of a recipe

What each decoder of `recipe_fields.cpp` throws, against the schema of the section it decodes.
-/

namespace PkgsourceYaml

open Throwing Pairing

variable {core : Core} {context : Context} {Leak : Exception → Prop} {node : Node} {path : Bytes}

/-! ### Subjects and programs -/

theorem reports_accepted {α : Type} {call : Bytes → Except CoreError α} :
    Reports Leak context (.scalar fun child => Rejected (call child.scalar)) node path
      (scalarValue context node path >>= fun text =>
        semanticValue context path node (call text)) := by
  apply Throws.bind (reports_scalarValue rfl)
  intro text htext
  obtain ⟨hscalar, rfl⟩ := scalarValue_eq_ok_iff.mp htext
  exact reports_semanticValue fun failed hfailed => .violated hscalar ⟨failed, hfailed⟩

theorem reports_subjectValue (hvalid : node.Valid) :
    Reports Leak context (subjectSchema core) node path (subjectValue core context node path) := by
  refine Throws.bind (reports_allowKeys hvalid rfl) fun _ hkeys => ?_
  have hkind := ((allowKeys_eq_ok_iff hvalid).mp hkeys).1
  have hchoice {message : Bytes}
      (h : (node.field? (ascii "package")).isSome = (node.field? (ascii "profile")).isSome) :
      Reports Leak context (subjectSchema core) node path
        (context.fail .invalidValue path node.mark message :
          Except Exception core.RequirementSubject) :=
    reports_fail [] (.violated hkind h)
  rw [findKey_eq hvalid hkind, findKey_eq hvalid hkind]
  cases hpackage : node.field? (ascii "package") with
  | some package =>
      cases hprofile : node.field? (ascii "profile") with
      | some profile => exact hchoice (by rw [hpackage, hprofile]; rfl)
      | none =>
          change Reports _ _ _ _ _ (scalarValue context package _ >>= fun name => _)
          exact Reports.field hkind hpackage rfl reports_accepted
  | none =>
      cases hprofile : node.field? (ascii "profile") with
      | some profile =>
          change Reports _ _ _ _ _ (scalarValue context profile _ >>= fun name => _)
          exact Reports.field hkind hprofile rfl reports_accepted
      | none => exact hchoice (by rw [hpackage, hprofile])

theorem reports_programValue (hvalid : node.Valid) :
    Reports Leak context (programSchema core) node path (programValue core context node path) := by
  refine Throws.bind (reports_allowKeys hvalid rfl) fun _ hkeys => ?_
  have hkind := ((allowKeys_eq_ok_iff hvalid).mp hkeys).1
  apply Throws.bind (reports_requiredKey hvalid hkind rfl)
  intro languageNode hlanguage
  apply Throws.bind (reports_requiredKey hvalid hkind rfl)
  intro scriptNode hscript
  rw [requiredKey_eq_ok_iff hvalid hkind] at hlanguage hscript
  refine Throws.bind (Reports.field hkind hlanguage rfl (reports_scalarValue rfl))
    fun text htext => ?_
  obtain ⟨hscalar, rfl⟩ := scalarValue_eq_ok_iff.mp htext
  refine Throws.ite (fun hother => ?_) fun _ =>
    Reports.field hkind hscript rfl reports_accepted
  exact Reports.field hkind hlanguage rfl (reports_fail [] (.violated hscalar hother))

/-! ### Requirements and lifecycle -/

theorem reports_declared {α : Type}
    {declare : core.RequirementSubject → core.DeclarationProvenance → Except CoreError α}
    (hvalid : node.Valid)
    (hsite : ∀ failed, provenance core context path node = .error failed → Leak (.core failed))
    (hdeclare : ∀ subject site failed, declare subject site = .error failed →
      Leak (.core failed)) :
    Reports Leak context (subjectSchema core) node path (do
      let subject ← subjectValue core context node path
      let site ← propagate (provenance core context path node)
      propagate (declare subject site)) :=
  Throws.bind (reports_subjectValue hvalid) fun subject _ =>
    Throws.bind (reports_propagate hsite) fun site _ => reports_propagate (hdeclare subject site)

theorem reports_requirementSequence {scope : Except CoreError core.RequirementScope}
    (hvalid : node.Valid) (hscope : ∀ failed, scope = .error failed → Leak (.core failed))
    (hsite : ∀ index, ∀ entry ∈ node.children, ∀ failed,
      provenance core context (indexed path index) entry = .error failed → Leak (.core failed))
    (hdeclare : ∀ scope subject site failed,
      core.requirementDeclaration scope subject site = .error failed → Leak (.core failed)) :
    Reports Leak context (.sequence (subjectSchema core)) node path
      (requirementSequence core context node path scope) := by
  refine Throws.bind (reports_propagate hscope) fun scope _ => reports_items ?_
  intro hkind index entry hentry
  exact reports_declared (hvalid.item hkind hentry) (hsite index entry hentry) (hdeclare scope)

theorem reports_actionValue {violated : Node → Node → Prop} {value : Schema} {key child : Node}
    (hkind : node.kind = .mapping) (hpair : (key, child) ∈ node.pairs)
    (h : NoAction key → violated key child) :
    Reports Leak context (.table violated value) node path
      (actionValue context key.scalar (childPath path key.scalar) key) := by
  refine Throws.ite (fun _ => Throws.pure) fun hpreInstall => ?_
  refine Throws.ite (fun _ => Throws.pure) fun hpostInstall => ?_
  refine Throws.ite (fun _ => Throws.pure) fun hpreRemove => ?_
  refine Throws.ite (fun _ => Throws.pure) fun hpostRemove => ?_
  refine reports_fail [.key key.scalar] (.badKey hkind hpair (h fun action => ?_))
  cases action with
  | preInstall => exact hpreInstall
  | postInstall => exact hpostInstall
  | preRemove => exact hpreRemove
  | postRemove => exact hpostRemove

/-- The exceptions with which an unguarded call of `parse_recipe_yaml` can end the run. -/
inductive RecipeLeak (core : Core) (context : Context) (root : Node) : Exception → Prop where
  | site {path : Bytes} {node : Node} {failed : CoreError} (hpath : RecipeSite path)
      (hnode : node ∈ root.nodes) (h : provenance core context path node = .error failed) :
      RecipeLeak core context root (.core failed)
  | buildScope {failed : CoreError} (h : core.buildScope = .error failed) :
      RecipeLeak core context root (.core failed)
  | runScope {failed : CoreError} (h : core.runScope = .error failed) :
      RecipeLeak core context root (.core failed)
  | checkScope {failed : CoreError} (h : core.checkScope = .error failed) :
      RecipeLeak core context root (.core failed)
  | lifecycleScope {action : LifecycleAction} {failed : CoreError}
      (h : core.lifecycleScope action = .error failed) : RecipeLeak core context root (.core failed)
  | requirement {scope : core.RequirementScope} {subject : core.RequirementSubject}
      {site : core.DeclarationProvenance} {failed : CoreError}
      (h : core.requirementDeclaration scope subject site = .error failed) :
      RecipeLeak core context root (.core failed)
  | lifecycle {action : LifecycleAction} {program : core.Program} {failed : CoreError}
      (h : core.lifecycleProgram action program = .error failed) :
      RecipeLeak core context root (.core failed)
  | architectures {failed : CoreError} (h : core.architectureRequirements [] [] = .error failed) :
      RecipeLeak core context root (.core failed)
  | recipe {release : core.PackageRelease} {metadata : core.PackageMetadata}
      {sources : List core.SourceInput} {build : core.Program}
      {requirements : List core.RequirementDeclaration} {lifecycle : List core.LifecycleProgram}
      {architectures : core.ArchitectureRequirements} {site : core.DeclarationProvenance}
      {check : Option core.Program} {failed : CoreError}
      (h : core.recipeDeclaration release metadata sources build requirements lifecycle
        architectures site check = .error failed) : RecipeLeak core context root (.core failed)

theorem RecipeLeak.exists_core {root : Node} {exception : Exception}
    (h : RecipeLeak core context root exception) : ∃ failed, exception = .core failed := by
  cases h <;> exact ⟨_, rfl⟩

theorem UnguardedRecipe.not_leak {root : Node} {exception : Exception}
    (hunguarded : UnguardedRecipe core context root) :
    ¬RecipeLeak core context root exception := by
  have hne : ∀ {α : Type} {call : Except CoreError α} {failed : CoreError},
      (∃ a, call = .ok a) → call ≠ .error failed := by
    rintro α call failed ⟨a, rfl⟩ herror
    cases herror
  intro h
  cases h with
  | site hpath hnode h => exact hne (hunguarded.site _ hpath _ hnode) h
  | buildScope h => exact hne hunguarded.buildScope h
  | runScope h => exact hne hunguarded.runScope h
  | checkScope h => exact hne hunguarded.checkScope h
  | lifecycleScope h => exact hne (hunguarded.lifecycleScope _) h
  | requirement h => exact hne (hunguarded.requirement _ _ _) h
  | lifecycle h => exact hne (hunguarded.lifecycle _ _) h
  | architectures h => exact hne hunguarded.architectures h
  | recipe h => exact hne (hunguarded.recipe _ _ _ _ _ _ _ _ _) h

section

variable {root : Node}

theorem reports_scopeSequence {scope : Except CoreError core.RequirementScope}
    (hvalid : node.Valid) (hnode : node ∈ root.nodes)
    (hscope : ∀ failed, scope = .error failed → RecipeLeak core context root (.core failed))
    (hpath : ∀ index, RecipeSite (indexed path index)) :
    Reports (RecipeLeak core context root) context (.sequence (subjectSchema core)) node path
      (requirementSequence core context node path scope) := by
  refine reports_requirementSequence hvalid hscope ?_ fun _ _ _ _ => .requirement
  intro index entry hentry failed hfailed
  exact .site (hpath index) (root.child_mem_nodes hnode hentry) hfailed

theorem reports_optional {α : Type} {schema inner : Schema} {key : Bytes}
    {decode : Option Node → Except Exception α} (hvalid : node.Valid)
    (hkind : node.kind = .mapping) (hschema : schema.step? (.key key) = some inner)
    (hnone : Reports Leak context schema node path (decode none))
    (hsome : ∀ child, node.field? key = some child →
      Reports Leak context inner child (childPath path key) (decode (some child))) :
    Reports Leak context schema node path (findKey context node key >>= decode) := by
  rw [findKey_eq hvalid hkind]
  change Reports Leak context schema node path (decode (node.field? key))
  cases hfield : node.field? key with
  | none => exact hnone
  | some child => exact Reports.field hkind hfield hschema (hsome child hfield)

theorem reports_scopeRequirements {schema : Schema} {key : Bytes}
    {scope : Except CoreError core.RequirementScope} (hvalid : node.Valid)
    (hnode : node ∈ root.nodes) (hkind : node.kind = .mapping)
    (hschema : schema.step? (.key key) = some (.sequence (subjectSchema core)))
    (hkey : key ∈ [ascii "build", ascii "run", ascii "check"])
    (hscope : ∀ failed, scope = .error failed → RecipeLeak core context root (.core failed)) :
    Reports (RecipeLeak core context root) context schema node (ascii "requirements")
      (scopeRequirements core context node key (ascii "requirements") scope) :=
  reports_optional hvalid hkind hschema Throws.pure fun _ hfield =>
    reports_scopeSequence (hvalid.field hfield) (field_mem_nodes hnode hfield) hscope
      fun index => .scope key index hkey

theorem reports_lifecycleRequirements (hvalid : node.Valid) (hnode : node ∈ root.nodes)
    (hkind : node.kind = .mapping) :
    Reports (RecipeLeak core context root) context (requirementsSchema core) node
      (ascii "requirements")
      (requirementsValue.lifecycleRequirements core context node (ascii "requirements")) := by
  refine reports_optional hvalid hkind rfl Throws.pure fun lifecycle hfield => ?_
  have hlifecycle := hvalid.field hfield
  refine Throws.bind (reports_requireKind rfl) fun found hfound => ?_
  obtain ⟨hmapping, rfl⟩ := requireKind_eq_ok_iff.mp hfound
  refine Throws.bind (throws_eachPair hlifecycle hmapping fun pair hpair => ?_)
    fun _ _ => Throws.pure
  apply Throws.bind (reports_actionValue hmapping hpair id)
  intro action haction
  have hsubjects : lifecycle.field? pair.1.scalar = some pair.2 :=
    hlifecycle.field?_of_pair hmapping hpair
  refine Reports.field hmapping hsubjects rfl
    (reports_scopeSequence (hlifecycle.pair hmapping hpair)
      (field_mem_nodes (field_mem_nodes hnode hfield) hsubjects) (fun _ => .lifecycleScope)
      fun index => ?_)
  rw [actionValue_eq_ok_iff.mp haction]
  exact .lifecycle action index

theorem reports_requirementsValue (hvalid : node.Valid) (hnode : node ∈ root.nodes) :
    Reports (RecipeLeak core context root) context (requirementsSchema core) node
      (ascii "requirements") (requirementsValue core context node (ascii "requirements")) := by
  refine Throws.bind (reports_allowKeys hvalid rfl) fun _ hkeys => ?_
  have hkind := ((allowKeys_eq_ok_iff hvalid).mp hkeys).1
  refine Throws.bind (reports_scopeRequirements hvalid hnode hkind rfl (by simp)
    fun _ => .buildScope) fun _ _ => ?_
  refine Throws.bind (reports_scopeRequirements hvalid hnode hkind rfl (by simp)
    fun _ => .runScope) fun _ _ => ?_
  refine Throws.bind (reports_scopeRequirements hvalid hnode hkind rfl (by simp)
    fun _ => .checkScope) fun _ _ => ?_
  exact Throws.bind (reports_lifecycleRequirements hvalid hnode hkind) fun _ _ => Throws.pure

theorem reports_lifecycleValue (hvalid : node.Valid) :
    Reports (RecipeLeak core context root) context (lifecycleSchema core) node path
      (lifecycleValue core context node path) := by
  refine Throws.bind (reports_requireKind rfl) fun found hfound => ?_
  obtain ⟨hkind, rfl⟩ := requireKind_eq_ok_iff.mp hfound
  refine throws_eachPair hvalid hkind fun pair hpair => ?_
  apply Throws.bind (reports_actionValue hkind hpair id)
  intro action _
  have hprogram : node.field? pair.1.scalar = some pair.2 :=
    hvalid.field?_of_pair hkind hpair
  exact Throws.bind
    (Reports.field hkind hprogram rfl (reports_programValue (hvalid.pair hkind hpair)))
    fun program _ => reports_propagate fun _ => .lifecycle

/-! ### Architectures and sources -/

theorem reports_architectureList {schema : Schema} {key : Bytes} (hvalid : node.Valid)
    (hkind : node.kind = .mapping)
    (hschema : schema.step? (.key key) = some (architectureListSchema core)) :
    Reports Leak context schema node path
      (architectureList core context node key (childPath path key)) :=
  reports_optional hvalid hkind hschema Throws.pure fun _ _ =>
    reports_items fun _ _ _ _ => reports_accepted

theorem reports_architecturesValue (hvalid : node.Valid) :
    Reports Leak context (architecturesSchema core) node (ascii "architectures")
      (architecturesValue core context (some node)) := by
  have hbuildPath : ascii "architectures.build" =
    childPath (ascii "architectures") (ascii "build") := by decide
  have htargetPath : ascii "architectures.target" =
    childPath (ascii "architectures") (ascii "target") := by decide
  refine Throws.bind (reports_allowKeys hvalid rfl) fun _ hkeys => ?_
  have hkind := ((allowKeys_eq_ok_iff hvalid).mp hkeys).1
  rw [hbuildPath, htargetPath]
  apply Throws.bind (reports_architectureList hvalid hkind rfl)
  intro build hbuild
  apply Throws.bind (reports_architectureList hvalid hkind rfl)
  intro target htarget
  rw [architectureList_eq_ok_iff hvalid hkind] at hbuild htarget
  exact reports_semanticValue fun failed hfailed =>
    .violated hkind ⟨failed, build, target, hbuild, htarget, hfailed⟩

theorem reports_unpackValue (hvalid : node.Valid) (hkind : node.kind = .mapping) :
    Reports Leak context (sourceSchema core) node path (unpackValue context node path) := by
  refine reports_optional hvalid hkind rfl Throws.pure fun unpack _ => ?_
  apply Throws.bind (reports_scalarValue rfl)
  intro text htext
  obtain ⟨hscalar, rfl⟩ := scalarValue_eq_ok_iff.mp htext
  exact Throws.ite (fun hother => reports_fail [] (.violated hscalar hother)) fun _ => Throws.pure

theorem reports_located {locatorNode : Node} {key : Bytes}
    {construct : Bytes → Bytes → core.Digest → SourceUnpackKind →
      Except CoreError core.SourceInput}
    (hvalid : node.Valid) (hkind : node.kind = .mapping)
    (hfield : node.field? key = some locatorNode)
    (hschema : (sourceSchema core).step? (.key key) = some anyText)
    (hlocated : ∀ {name content unpack locator outcome}, locatorNode.IsText locator →
      construct locator name content unpack = outcome →
      IsLocated core node name content unpack outcome) :
    Reports Leak context (sourceSchema core) node path
      (sourceValue.located core context path node locatorNode key construct) := by
  apply Throws.bind (reports_requiredKey hvalid hkind rfl)
  intro nameNode hname
  apply Throws.bind (reports_requiredKey hvalid hkind rfl)
  intro digestNode hdigest
  rw [requiredKey_eq_ok_iff hvalid hkind] at hname hdigest
  apply Throws.bind (reports_unpackValue hvalid hkind)
  intro unpack hunpack
  refine Throws.bind (Reports.field hkind hname rfl (reports_scalarValue rfl))
    fun name hnameText => ?_
  refine Throws.bind (Reports.field hkind hdigest rfl (reports_scalarValue rfl))
    fun hash hhash => ?_
  obtain ⟨hscalar, rfl⟩ := scalarValue_eq_ok_iff.mp hhash
  refine Throws.bind (Reports.field hkind hdigest rfl (reports_semanticValue fun failed hfailed =>
    .violated hscalar ⟨failed, hfailed⟩)) fun content hcontent => ?_
  refine Throws.bind (Reports.field hkind hfield hschema (reports_scalarValue rfl))
    fun locator hlocator => ?_
  rw [unpackValue_eq_ok_iff hvalid hkind] at hunpack
  rw [scalarValue_eq_ok_iff] at hnameText hlocator
  rw [semanticValue_eq_ok_iff] at hcontent
  exact reports_semanticValue fun failed hfailed => .violated hkind (Or.inr ⟨failed, name, _,
    content, unpack, ⟨nameNode, hname, hnameText⟩, ⟨digestNode, hdigest, hscalar, rfl⟩, hcontent,
    hunpack, hlocated hlocator hfailed⟩)

theorem reports_sourceValue (hvalid : node.Valid) :
    Reports Leak context (sourceSchema core) node path (sourceValue core context path node) := by
  refine Throws.bind (reports_allowKeys hvalid rfl) fun _ hkeys => ?_
  have hkind := ((allowKeys_eq_ok_iff hvalid).mp hkeys).1
  have hchoice {message : Bytes}
      (h : (node.field? (ascii "url")).isSome = (node.field? (ascii "path")).isSome) :
      Reports Leak context (sourceSchema core) node path
        (context.fail .invalidValue path node.mark message : Except Exception core.SourceInput) :=
    reports_fail [] (.violated hkind (Or.inl h))
  rw [findKey_eq hvalid hkind, findKey_eq hvalid hkind]
  cases hurl : node.field? (ascii "url") with
  | some url =>
      cases hpath : node.field? (ascii "path") with
      | some localPath => exact hchoice (by rw [hurl, hpath]; rfl)
      | none =>
          change Reports _ _ _ _ _ (sourceValue.located core context path node url _ _)
          exact reports_located hvalid hkind hurl rfl fun hlocator hcall =>
            .url _ ⟨url, hurl, hlocator⟩ hpath hcall
  | none =>
      cases hpath : node.field? (ascii "path") with
      | some localPath =>
          change Reports _ _ _ _ _ (sourceValue.located core context path node localPath _ _)
          exact reports_located hvalid hkind hpath rfl fun hlocator hcall =>
            .path _ hurl ⟨localPath, hpath, hlocator⟩ hcall
      | none => exact hchoice (by rw [hurl, hpath])

theorem reports_sourcesValue (hvalid : node.Valid) :
    Reports Leak context (.sequence (sourceSchema core)) node path
      (sourcesValue core context node path) :=
  reports_items fun hkind _ _ hentry => reports_sourceValue (hvalid.item hkind hentry)

/-! ### The package section -/

theorem reports_releaseValue :
    Reports Leak context (.scalar fun child => ∀ number, ¬CanonicalRelease child.scalar number)
      node path (releaseValue context node path) := by
  intro exception herror
  by_cases hcanonical : ∃ number, releaseValue context node path = .ok number
  · obtain ⟨number, hnumber⟩ := hcanonical
    rw [hnumber] at herror
    cases herror
  · have hviolated : node.kind = .scalar → ∀ number, ¬CanonicalRelease node.scalar number :=
      fun hscalar number hnumber => hcanonical ⟨number,
        releaseValue_eq_ok_iff.mpr ⟨node.scalar, ⟨hscalar, rfl⟩, hnumber⟩⟩
    revert exception
    apply Throws.bind (reports_scalarValue rfl)
    intro text htext
    obtain ⟨hscalar, rfl⟩ := scalarValue_eq_ok_iff.mp htext
    refine Throws.ite (fun _ => reports_fail [] (.violated hscalar (hviolated hscalar))) fun _ => ?_
    exact Throws.ite (fun _ => reports_fail [] (.violated hscalar (hviolated hscalar)))
      fun _ => Throws.pure

theorem reports_packageReleaseValue (hvalid : node.Valid) :
    Reports Leak context (packageSchema core) node (ascii "package")
      (packageReleaseValue core context node) := by
  have hnamePath : ascii "package.name" = childPath (ascii "package") (ascii "name") := by decide
  have hversionPath : ascii "package.version" =
    childPath (ascii "package") (ascii "version") := by decide
  have hreleasePath : ascii "package.release" =
    childPath (ascii "package") (ascii "release") := by decide
  refine Throws.bind (reports_allowKeys hvalid rfl) fun _ hkeys => ?_
  rw [← packageKeys, allowKeys_eq_ok_iff hvalid] at hkeys
  have hkind := hkeys.1
  apply Throws.bind (reports_requiredKey hvalid hkind rfl)
  intro nameNode hname
  apply Throws.bind (reports_requiredKey hvalid hkind rfl)
  intro versionNode hversion
  apply Throws.bind (reports_requiredKey hvalid hkind rfl)
  intro releaseNode hrelease
  rw [requiredKey_eq_ok_iff hvalid hkind] at hname hversion hrelease
  rw [hnamePath, hversionPath, hreleasePath]
  refine Throws.bind (Reports.field hkind hname rfl (reports_scalarValue rfl))
    fun name hnameText => ?_
  refine Throws.bind (Reports.field hkind hversion rfl (reports_scalarValue rfl))
    fun version hversionText => ?_
  apply Throws.bind (Reports.field hkind hrelease rfl reports_releaseValue)
  intro number hnumber
  rw [scalarValue_eq_ok_iff] at hnameText hversionText
  obtain ⟨text, htext, hcanonical⟩ := releaseValue_eq_ok_iff.mp hnumber
  exact reports_semanticValue fun failed hfailed => .violated hkind (Or.inl ⟨failed, name, version,
    number, ⟨hkeys, ⟨nameNode, hname, hnameText⟩, ⟨versionNode, hversion, hversionText⟩,
      text, ⟨releaseNode, hrelease, htext⟩, hcanonical⟩, hfailed⟩)

theorem reports_optionalScalar {schema : Schema} {key : Bytes} (hvalid : node.Valid)
    (hkind : node.kind = .mapping) (hschema : schema.step? (.key key) = some anyText) :
    Reports Leak context schema node path
      (optionalScalar context node key (childPath path key)) :=
  reports_optional hvalid hkind hschema Throws.pure fun _ _ =>
    Throws.bind (reports_scalarValue rfl) fun _ _ => Throws.pure

theorem reports_packageMetadataValue (hvalid : node.Valid) (hkind : node.kind = .mapping) :
    Reports Leak context (packageSchema core) node (ascii "package")
      (packageMetadataValue core context node) := by
  have hsummaryPath : ascii "package.summary" =
    childPath (ascii "package") (ascii "summary") := by decide
  have hdescriptionPath : ascii "package.description" =
    childPath (ascii "package") (ascii "description") := by decide
  have hhomepagePath : ascii "package.homepage" =
    childPath (ascii "package") (ascii "homepage") := by decide
  have hlicensesPath : ascii "package.licenses" =
    childPath (ascii "package") (ascii "licenses") := by decide
  apply Throws.bind (reports_requiredKey hvalid hkind rfl)
  intro summaryNode hsummary
  apply Throws.bind (reports_requiredKey hvalid hkind rfl)
  intro list hlist
  rw [requiredKey_eq_ok_iff hvalid hkind] at hsummary hlist
  rw [hsummaryPath, hdescriptionPath, hhomepagePath, hlicensesPath]
  refine Throws.bind (Reports.field hkind hsummary rfl (reports_scalarValue rfl))
    fun summary hsummaryText => ?_
  apply Throws.bind (reports_optionalScalar hvalid hkind rfl)
  intro description hdescription
  apply Throws.bind (reports_optionalScalar hvalid hkind rfl)
  intro homepage hhomepage
  refine Throws.bind (Reports.field hkind hlist rfl (reports_sequenceValue rfl))
    fun entries hentries => ?_
  obtain ⟨hsequence, rfl⟩ := sequenceValue_eq_ok_iff.mp hentries
  refine Throws.bind (Reports.field hkind hlist rfl (reports_eachItem hsequence
    fun _ _ _ => reports_scalarValue rfl)) fun licenses hlicenses => ?_
  rw [optionalScalar_eq_ok_iff hvalid hkind] at hdescription hhomepage
  have hitems := (licenses_eq_ok_iff (hvalid.field hlist)).mp ⟨list.children, hentries, hlicenses⟩
  exact reports_semanticValue fun failed hfailed => .violated hkind (Or.inr ⟨failed, summary,
    description, homepage, licenses,
    ⟨⟨summaryNode, hsummary, scalarValue_eq_ok_iff.mp hsummaryText⟩, hdescription, hhomepage, list,
      hlist, hitems⟩, hfailed⟩)

/-! ### The document -/

theorem reports_requireFormat {expected : Bytes} {fields : List (Bytes × Presence × Schema)}
    {violated : Node → Prop} (hvalid : node.Valid) (hkind : node.kind = .mapping)
    (hformat : fields.find? (·.1 = ascii "format") =
      some (ascii "format", .required, formatSchema expected)) :
    Reports Leak context (.record fields violated) node (ascii "$")
      (requireFormat context node expected) := by
  have hpath : ascii "format" = childPath (ascii "$") (ascii "format") := by decide
  have hinner : (Schema.record fields violated).step? (.key (ascii "format")) =
      some (formatSchema expected) := by
    rw [Schema.step?, hformat]
    rfl
  apply Throws.bind (reports_requiredKey hvalid hkind hformat)
  intro format hfound
  rw [requiredKey_eq_ok_iff hvalid hkind] at hfound
  refine Throws.bind (Reports.field hkind hfound hinner (hpath ▸ reports_scalarValue rfl))
    fun text htext => ?_
  obtain ⟨hscalar, rfl⟩ := scalarValue_eq_ok_iff.mp htext
  refine Throws.ite (fun hother => Reports.field hkind hfound hinner (hpath ▸ ?_))
    fun _ => Throws.pure
  exact reports_fail [] (.violated hscalar hother)

theorem reports_recipeSections {root : Node} (hvalid : root.Valid) :
    Reports (RecipeLeak core context root) context (recipeSchema core) root (ascii "$")
      (recipeSections core context root) := by
  refine Throws.bind (reports_allowKeys hvalid rfl) fun _ hkeys => ?_
  have hkind := ((allowKeys_eq_ok_iff hvalid).mp hkeys).1
  apply Throws.bind (reports_requireFormat hvalid hkind rfl)
  intro _ _
  apply Throws.bind (reports_requiredKey hvalid hkind rfl)
  intro package hpackage
  rw [requiredKey_eq_ok_iff hvalid hkind] at hpackage
  refine Throws.bind (Reports.field hkind hpackage rfl (reports_requireKind rfl)) fun _ _ => ?_
  apply Throws.bind (reports_requiredKey hvalid hkind rfl)
  intro _ _
  apply Throws.bind (reports_requiredKey hvalid hkind rfl)
  intro _ _
  apply Throws.bind (reports_requiredKey hvalid hkind rfl)
  intro _ _
  refine Throws.bind (reports_optional hvalid hkind rfl Throws.pure fun check hcheck =>
    Throws.bind (reports_programValue (hvalid.field hcheck)) fun _ _ => Throws.pure) fun _ _ => ?_
  refine Throws.bind (reports_optional hvalid hkind rfl Throws.pure fun lifecycle hlifecycle =>
    reports_lifecycleValue (hvalid.field hlifecycle)) fun _ _ => ?_
  exact Throws.pure

theorem reports_argument {root : Node} {sections : RecipeSections}
    {lifecycle : List core.LifecycleProgram} {check : Option core.Program} (hvalid : root.Valid)
    (h : IsRecipeHeader root sections lifecycle check) (argument : RecipeArgument) :
    Reports (RecipeLeak core context root) context (recipeSchema core) root (ascii "$")
      (argument.evaluate core context sections) := by
  have hkind := h.keys.1
  cases argument with
  | release =>
      exact Reports.field hkind h.package rfl (reports_packageReleaseValue (hvalid.field h.package))
  | metadata =>
      exact Reports.field hkind h.package rfl
        (reports_packageMetadataValue (hvalid.field h.package) h.mapping)
  | sources =>
      exact Reports.field hkind h.sources rfl (reports_sourcesValue (hvalid.field h.sources))
  | build => exact Reports.field hkind h.build rfl (reports_programValue (hvalid.field h.build))
  | requirements =>
      exact Reports.field hkind h.requirements rfl (reports_requirementsValue
        (hvalid.field h.requirements) (field_mem_nodes root.self_mem_nodes h.requirements))
  | architectures =>
      obtain rfl := h.document
      exact reports_optional hvalid hkind rfl (reports_propagate fun _ => .architectures)
        fun architectures harchitectures =>
          reports_architecturesValue (hvalid.field harchitectures)
  | provenance =>
      obtain rfl := h.document
      exact reports_propagate fun _ => .site .document sections.root.self_mem_nodes

/-- Whatever `parse_recipe_yaml` throws on a valid tree, in any evaluation order, reports a fault of
the tree or comes from an unguarded call. -/
theorem reports_recipeValue {order : EvaluationOrder} {root : Node} (hvalid : root.Valid) :
    Reports (RecipeLeak core context root) context (recipeSchema core) root (ascii "$")
      (recipeValue core context order root) := by
  refine Throws.bind (reports_recipeSections hvalid) fun (sections, lifecycle, check) hheader => ?_
  rw [recipeSections_eq_ok_iff hvalid] at hheader
  intro exception herror
  rcases Unsequenced.call_eq_error herror with ⟨argument, hargument⟩ | ⟨values, -, hcall⟩
  · exact reports_argument hvalid hheader argument exception hargument
  · exact reports_propagate (fun _ => .recipe) exception hcall

end

end PkgsourceYaml
