import PkgsourceYaml.Proof.Containment
import PkgsourceYaml.Proof.Order

/-!
# What is accepted has no fault

The other direction of truthful diagnostics. A document that a parser accepts agrees with its schema
at every position, also below keys that the source reads late or in no fixed order.
-/

namespace PkgsourceYaml

open Throwing Pairing

/-- No position of the node disagrees with the schema. -/
def FaultFree (schema : Schema) (node : Node) : Prop :=
  ∀ position code mark, ¬FaultAt schema node position code mark

/-- What a record demands of the value under one of its keys. -/
structure Filled (node : Node) (field : Bytes × Presence × Schema) : Prop where
  present : field.2.1 = .required → node.field? field.1 ≠ none
  faultFree : ∀ child, node.field? field.1 = some child → FaultFree field.2.2 child

section

variable {schema : Schema} {node : Node}

/-- A node is free of faults if it has none itself and the node at every step below it is. -/
theorem FaultFree.of_steps (hhere : ∀ suffix code mark, ¬Fault schema node suffix code mark)
    (hbelow : ∀ segment child inner, node.step? segment = some child →
      schema.step? segment = some inner → FaultFree inner child) : FaultFree schema node := by
  rintro position code mark ⟨parent, suffix, found, inner, -, hfound, hinner, hfault⟩
  cases parent with
  | nil =>
      obtain rfl := Option.some.inj hfound
      obtain rfl := Option.some.inj hinner
      exact hhere suffix code mark hfault
  | cons segment rest =>
      rw [Node.at?, Option.bind_eq_some_iff] at hfound
      rw [Schema.at?, Option.bind_eq_some_iff] at hinner
      obtain ⟨child, hchild, hfound⟩ := hfound
      obtain ⟨below, hstep, hinner⟩ := hinner
      exact hbelow segment child below hchild hstep (rest ++ suffix) code mark
        ⟨rest, suffix, found, inner, rfl, hfound, hinner, hfault⟩

theorem FaultFree.scalar {violated : Node → Prop} (hkind : node.kind = .scalar)
    (hgood : ¬violated node) : FaultFree (.scalar violated) node := by
  refine FaultFree.of_steps (fun suffix code mark hfault => ?_)
    fun segment child inner _ hinner => ?_
  · cases hfault with
    | wrongKind hwrong => exact hwrong hkind
    | violated _ hviolated => exact hgood hviolated
  · cases hinner

theorem FaultFree.sequence {item : Schema} (hkind : node.kind = .sequence)
    (hitems : ∀ entry ∈ node.children, FaultFree item entry) :
    FaultFree (.sequence item) node := by
  refine FaultFree.of_steps (fun suffix code mark hfault => ?_)
    fun segment child inner hchild hinner => ?_
  · cases hfault with
    | wrongKind hwrong => exact hwrong hkind
    | violated _ hviolated => exact hviolated
  · cases segment with
    | key key => cases hinner
    | index index =>
        obtain rfl := Option.some.inj hinner
        rw [Node.step?, if_pos hkind] at hchild
        exact hitems child (List.mem_of_getElem? hchild)

theorem FaultFree.record {fields : List (Bytes × Presence × Schema)} {violated : Node → Prop}
    (hkeys : node.HasKeys (fields.map Prod.fst)) (hgood : ¬violated node)
    (hfields : ∀ field ∈ fields, Filled node field) : FaultFree (.record fields violated) node := by
  refine FaultFree.of_steps (fun suffix code mark hfault => ?_)
    fun segment child inner hchild hinner => ?_
  · cases hfault with
    | wrongKind hwrong => exact hwrong hkeys.1
    | unknownKey _ hpair hunknown => exact hunknown (hkeys.2 _ hpair)
    | missingKey _ hrequired hmissing => exact (hfields _ hrequired).present rfl hmissing
    | violated _ hviolated => exact hgood hviolated
  · cases segment with
    | index index => cases hinner
    | key key =>
        rw [Schema.step?, Option.map_eq_some_iff] at hinner
        obtain ⟨field, hfind, rfl⟩ := hinner
        rw [step?_key hkeys.1] at hchild
        have hname : field.1 = key := by simpa using List.find?_some hfind
        rw [← hname] at hchild
        exact (hfields field (List.mem_of_find?_eq_some hfind)).faultFree child hchild

theorem FaultFree.table {violated : Node → Node → Prop} {value : Schema}
    (hkind : node.kind = .mapping)
    (hpairs : ∀ pair ∈ node.pairs, ¬violated pair.1 pair.2 ∧ FaultFree value pair.2) :
    FaultFree (.table violated value) node := by
  refine FaultFree.of_steps (fun suffix code mark hfault => ?_)
    fun segment child inner hchild hinner => ?_
  · cases hfault with
    | wrongKind hwrong => exact hwrong hkind
    | violated _ hviolated => exact hviolated
    | badKey _ hpair hviolated => exact (hpairs _ hpair).1 hviolated
  · cases segment with
    | index index => cases hinner
    | key key =>
        obtain rfl := Option.some.inj hinner
        rw [step?_key hkind] at hchild
        obtain ⟨keyNode, hpair, -⟩ := Node.pair_of_field? hchild
        exact (hpairs _ hpair).2

variable {key : Bytes} {presence : Presence}

theorem Filled.found {child : Node} (hfield : node.field? key = some child)
    (h : FaultFree schema child) : Filled node (key, presence, schema) := by
  refine ⟨fun _ hnone => ?_, fun other hother => ?_⟩
  · rw [hfield] at hnone
    cases hnone
  · rw [hfield, Option.some.injEq] at hother
    exact hother ▸ h

theorem Filled.text {text : Bytes} {violated : Node → Prop} (h : node.Text key text)
    (hgood : ∀ child : Node, child.scalar = text → ¬violated child) :
    Filled node (key, presence, .scalar violated) := by
  obtain ⟨child, hfield, hkind, htext⟩ := h
  exact Filled.found hfield (FaultFree.scalar hkind (hgood child htext))

theorem Filled.absent (hfield : node.field? key = none) : Filled node (key, .optional, schema) := by
  refine ⟨fun hrequired => absurd hrequired Presence.noConfusion, fun child hchild => ?_⟩
  rw [hfield] at hchild
  cases hchild

theorem Filled.optional {α : Type} {Reads : Node → α → Prop} {absent value : α}
    (h : IsOptional Reads absent (node.field? key) value)
    (hread : ∀ child, Reads child value → FaultFree schema child) :
    Filled node (key, .optional, schema) := by
  cases hfield : node.field? key with
  | none => exact Filled.absent hfield
  | some child =>
      rw [hfield] at h
      exact Filled.found hfield (hread child h)

theorem faultFree_of_isItems {α : Type} {Reads : Nat → Node → α → Prop} {values : List α}
    {item : Schema} (h : IsItems Reads node values)
    (hread : ∀ index entry value, Reads index entry value → FaultFree item entry) :
    FaultFree (.sequence item) node := by
  refine FaultFree.sequence h.1 (forall_mem_zipIdx_iff.mp fun entry hentry => ?_)
  obtain ⟨value, hvalue⟩ := Entrywise.exists_forall₂_iff.mp ⟨values, h.2⟩ entry hentry
  exact hread _ _ _ hvalue

theorem faultFree_of_isEntries {α : Type} {Reads : Node → Node → α → Prop} {values : List α}
    {violated : Node → Node → Prop} {inner : Schema} (h : IsEntries Reads node values)
    (hread : ∀ key child value, Reads key child value →
      ¬violated key child ∧ FaultFree inner child) : FaultFree (.table violated inner) node := by
  refine FaultFree.table h.1 fun pair hpair => ?_
  obtain ⟨value, hvalue⟩ := Entrywise.exists_forall₂_iff.mp ⟨values, h.2⟩ pair hpair
  exact hread _ _ _ hvalue

end

variable {core : Core} {context : Context} {node root : Node}

theorem not_rejected {α : Type} {call : Except CoreError α} {a : α} (h : call = .ok a) :
    ¬Rejected call := by
  rintro ⟨failed, hfailed⟩
  rw [h] at hfailed
  cases hfailed

theorem faultFree_anyText (hkind : node.kind = .scalar) : FaultFree anyText node :=
  FaultFree.scalar hkind id

/-! ### What is read means one thing

A fault of a whole record is an outcome of `libpkgsource` other than the one that was read. -/

theorem isText_unique {text other : Bytes} (h : node.IsText text) (hother : node.IsText other) :
    text = other :=
  h.2.symm.trans hother.2

theorem IsItems.unique {α : Type} {Reads : Nat → Node → α → Prop} {values others : List α}
    (hunique : ∀ index entry value other, Reads index entry value → Reads index entry other →
      value = other)
    (h : IsItems Reads node values) (hothers : IsItems Reads node others) : values = others :=
  List.right_unique_forall₂' (fun entry _ _ hleft hright => hunique _ entry.1 _ _ hleft hright)
    h.2 hothers.2

theorem ArchitecturesOutcome.unique {outcome other : Except CoreError core.ArchitectureRequirements}
    (h : ArchitecturesOutcome core node outcome) (hother : ArchitecturesOutcome core node other) :
    outcome = other := by
  have hlist : ∀ {found : Option Node} {names others : List core.ArchitectureReference},
      IsOptional (IsArchitectureList core) [] found names →
      IsOptional (IsArchitectureList core) [] found others → names = others := by
    intro found names others hnames hothers
    refine eq_of_isOptional (fun list _ hnames hothers => ?_) hnames hothers
    refine IsItems.unique (fun _ entry reference reference' hread hread' => ?_) hnames hothers
    obtain ⟨name, hname, haccepted⟩ := hread
    obtain ⟨name', hname', haccepted'⟩ := hread'
    rw [isText_unique hname hname', haccepted'] at haccepted
    exact (Except.ok.inj haccepted).symm
  obtain ⟨build, target, hbuild, htarget, rfl⟩ := h
  obtain ⟨build', target', hbuild', htarget', rfl⟩ := hother
  rw [hlist hbuild hbuild', hlist htarget htarget']

theorem IsLocated.unique {name : Bytes} {content : core.Digest} {unpack : SourceUnpackKind}
    {outcome other : Except CoreError core.SourceInput}
    (h : IsLocated core node name content unpack outcome)
    (hother : IsLocated core node name content unpack other) : outcome = other := by
  cases h with
  | url locator hurl hpath hcall =>
      cases hother with
      | url locator' hurl' _ hcall' => rw [← hcall, ← hcall', hurl.unique hurl']
      | path locator' hnone _ _ => exact absurd hnone hurl.ne_none
  | path locator hurl hpath hcall =>
      cases hother with
      | url locator' hurl' _ _ => exact absurd hurl hurl'.ne_none
      | path locator' _ hpath' hcall' => rw [← hcall, ← hcall', hpath.unique hpath']

theorem SourceOutcome.unique {outcome other : Except CoreError core.SourceInput}
    (h : SourceOutcome core node outcome) (hother : SourceOutcome core node other) :
    outcome = other := by
  obtain ⟨name, hash, content, unpack, hname, hhash, hcontent, hunpack, hlocated⟩ := h
  obtain ⟨name', hash', content', unpack', hname', hhash', hcontent', hunpack', hlocated'⟩ := hother
  obtain rfl := hname.unique hname'
  obtain rfl := hhash.unique hhash'
  obtain rfl : content = content' := Except.ok.inj (hcontent.symm.trans hcontent')
  obtain rfl : unpack = unpack' := eq_of_isOptional (fun _ _ hread hread' =>
    hread.2.trans hread'.2.symm) hunpack hunpack'
  exact hlocated.unique hlocated'

theorem ReleaseOutcome.unique {outcome other : Except CoreError core.PackageRelease}
    (h : ReleaseOutcome core node outcome) (hother : ReleaseOutcome core node other) :
    outcome = other := by
  obtain ⟨name, version, number, hfields, rfl⟩ := h
  obtain ⟨name', version', number', hfields', rfl⟩ := hother
  obtain ⟨text, htext, -, hnumber⟩ := hfields.release
  obtain ⟨text', htext', -, hnumber'⟩ := hfields'.release
  have hsame : number.toNat = number'.toNat := by
    apply decimal_injective
    rw [← hnumber, ← hnumber', htext.unique htext']
  rw [hfields.name.unique hfields'.name, hfields.version.unique hfields'.version,
    UInt32.toNat_inj.mp hsame]

theorem MetadataOutcome.unique {outcome other : Except CoreError core.PackageMetadata}
    (h : MetadataOutcome core node outcome) (hother : MetadataOutcome core node other) :
    outcome = other := by
  have htext : ∀ {found : Option Node} {text text' : Option Bytes},
      IsOptional IsOptionalText none found text → IsOptional IsOptionalText none found text' →
      text = text' := by
    refine eq_of_isOptional fun child _ hread hread' => ?_
    obtain ⟨text, htext, rfl⟩ := hread
    obtain ⟨text', htext', rfl⟩ := hread'
    rw [isText_unique htext htext']
  obtain ⟨summary, description, homepage, licenses, hfields, rfl⟩ := h
  obtain ⟨summary', description', homepage', licenses', hfields', rfl⟩ := hother
  obtain ⟨list, hlist, hlicenses⟩ := hfields.licenses
  obtain ⟨list', hlist', hlicenses'⟩ := hfields'.licenses
  obtain rfl : list = list' := Option.some.inj (hlist.symm.trans hlist')
  have hsame : licenses = licenses' := hlicenses.unique
    (fun _ entry _ _ => @isText_unique entry _ _) hlicenses'
  rw [hfields.summary.unique hfields'.summary, htext hfields.description hfields'.description,
    htext hfields.homepage hfields'.homepage, hsame]

theorem ProfileOutcome.unique {key definition : Node}
    {outcome other : Except CoreError core.ProfileDeclaration}
    (h : ProfileOutcome core context key definition outcome)
    (hother : ProfileOutcome core context key definition other) : outcome = other := by
  obtain ⟨reference, site, members, hreference, hsite, hmembers, rfl⟩ := h
  obtain ⟨reference', site', members', hreference', hsite', hmembers', rfl⟩ := hother
  rw [Except.ok.inj (hreference.symm.trans hreference'), Except.ok.inj (hsite.symm.trans hsite'),
    hmembers.unique hmembers']

theorem not_failed {α : Type} {Outcome : Except CoreError α → Prop} {a : α}
    (hunique : ∀ {outcome other}, Outcome outcome → Outcome other → outcome = other)
    (h : Outcome (.ok a)) : ¬∃ failed, Outcome (.error failed) := by
  rintro ⟨failed, hfailed⟩
  cases hunique h hfailed

/-! ### Sections of a recipe -/

theorem faultFree_subject {subject : core.RequirementSubject} (h : IsSubject core node subject) :
    FaultFree (subjectSchema core) node := by
  cases h with
  | package name keys hpackage hprofile haccepted =>
      have hchosen : ¬(node.field? (ascii "package")).isSome =
          (node.field? (ascii "profile")).isSome := by
        obtain ⟨child, hfield, -⟩ := hpackage
        rw [hfield, hprofile]
        exact Bool.noConfusion
      refine FaultFree.record keys hchosen ?_
      simp only [List.forall_mem_cons]
      refine ⟨Filled.text hpackage fun child htext => ?_, Filled.absent hprofile, by simp⟩
      exact not_rejected (htext ▸ haccepted)
  | profile name keys hpackage hprofile haccepted =>
      have hchosen : ¬(node.field? (ascii "package")).isSome =
          (node.field? (ascii "profile")).isSome := by
        obtain ⟨child, hfield, -⟩ := hprofile
        rw [hfield, hpackage]
        exact Bool.noConfusion
      refine FaultFree.record keys hchosen ?_
      simp only [List.forall_mem_cons]
      refine ⟨Filled.absent hpackage, Filled.text hprofile fun child htext => ?_, by simp⟩
      exact not_rejected (htext ▸ haccepted)

theorem faultFree_program {program : core.Program} (h : IsProgram core node program) :
    FaultFree (programSchema core) node := by
  obtain ⟨material, hmaterial, haccepted⟩ := h.script
  refine FaultFree.record h.keys id ?_
  simp only [List.forall_mem_cons]
  refine ⟨Filled.text h.language fun child htext => not_not.mpr htext,
    Filled.text hmaterial fun child htext => ?_, by simp⟩
  exact not_rejected (htext ▸ haccepted)

theorem faultFree_requirementSequence {path : Bytes}
    {scope : Except CoreError core.RequirementScope}
    {declarations : List core.RequirementDeclaration}
    (h : IsRequirementSequence core context path scope node declarations) :
    FaultFree (.sequence (subjectSchema core)) node := by
  obtain ⟨_, -, hitems⟩ := h
  refine faultFree_of_isItems hitems fun index entry declaration hread => ?_
  obtain ⟨subject, site, hsubject, -⟩ := hread
  exact faultFree_subject hsubject

theorem not_noAction {key : Node} {action : LifecycleAction} (h : key.scalar = action.name) :
    ¬NoAction key :=
  fun hnone => hnone action h

theorem faultFree_requirements {path : Bytes} {groups : RequirementGroups core}
    (h : IsRequirements core context path node groups) :
    FaultFree (requirementsSchema core) node := by
  refine FaultFree.record h.keys id ?_
  simp only [List.forall_mem_cons]
  refine ⟨Filled.optional h.build fun _ => faultFree_requirementSequence,
    Filled.optional h.run fun _ => faultFree_requirementSequence,
    Filled.optional h.check fun _ => faultFree_requirementSequence,
    Filled.optional h.lifecycle fun _ hlifecycle => ?_, by simp⟩
  refine faultFree_of_isEntries hlifecycle fun key subjects group hread => ?_
  obtain ⟨action, hname, hsubjects⟩ := hread
  exact ⟨not_noAction hname, faultFree_requirementSequence hsubjects⟩

theorem faultFree_lifecycle {programs : List core.LifecycleProgram}
    (h : IsLifecycle core node programs) : FaultFree (lifecycleSchema core) node := by
  refine faultFree_of_isEntries h fun key programNode lifecycleProgram hread => ?_
  obtain ⟨action, program, hname, hprogram, -⟩ := hread
  exact ⟨not_noAction hname, faultFree_program hprogram⟩

theorem faultFree_architectures {architectures : core.ArchitectureRequirements}
    (h : IsArchitectures core node architectures) : FaultFree (architecturesSchema core) node := by
  have hlist : ∀ {list : Node} {references : List core.ArchitectureReference},
      IsArchitectureList core list references → FaultFree (architectureListSchema core) list := by
    intro list references hlist
    refine faultFree_of_isItems hlist fun index entry reference hread => ?_
    obtain ⟨name, ⟨hkind, htext⟩, haccepted⟩ := hread
    exact FaultFree.scalar hkind (not_rejected (htext ▸ haccepted))
  have haccepted := h.accepted
  obtain ⟨build, target, hbuild, htarget, -⟩ := haccepted
  refine FaultFree.record h.keys (not_failed ArchitecturesOutcome.unique h.accepted) ?_
  simp only [List.forall_mem_cons]
  exact ⟨Filled.optional hbuild fun _ => hlist, Filled.optional htarget fun _ => hlist, by simp⟩

theorem faultFree_source {source : core.SourceInput} (h : IsSource core node source) :
    FaultFree (sourceSchema core) node := by
  have haccepted := h.accepted
  obtain ⟨name, hash, content, unpack, hname, hhash, hcontent, hunpack, hlocated⟩ := haccepted
  have hlocators : ((node.field? (ascii "url")).isSome ≠ (node.field? (ascii "path")).isSome) ∧
      Filled node (ascii "url", .optional, anyText) ∧
      Filled node (ascii "path", .optional, anyText) := by
    cases hlocated with
    | url locator hurl hpath hcall =>
        obtain ⟨child, hfield, hkind, -⟩ := hurl
        refine ⟨?_, Filled.found hfield (faultFree_anyText hkind), Filled.absent hpath⟩
        rw [hfield, hpath]
        exact Bool.noConfusion
    | path locator hurl hpath hcall =>
        obtain ⟨child, hfield, hkind, -⟩ := hpath
        refine ⟨?_, Filled.absent hurl, Filled.found hfield (faultFree_anyText hkind)⟩
        rw [hfield, hurl]
        exact Bool.noConfusion
  refine FaultFree.record h.keys
    (not_or.mpr ⟨hlocators.1, not_failed SourceOutcome.unique h.accepted⟩) ?_
  simp only [List.forall_mem_cons]
  refine ⟨hlocators.2.1, hlocators.2.2, Filled.text hname fun _ _ => id,
    Filled.optional hunpack fun child hread => ?_, Filled.text hhash fun child htext => ?_, by simp⟩
  · exact FaultFree.scalar hread.1.1 (not_not.mpr hread.1.2)
  · exact not_rejected (htext ▸ hcontent)

theorem faultFree_package {release : core.PackageRelease} {metadata : core.PackageMetadata}
    (hrelease : IsRelease core node release) (hmetadata : IsMetadata core node metadata) :
    FaultFree (packageSchema core) node := by
  have hfailed := not_or.mpr ⟨not_failed ReleaseOutcome.unique hrelease,
    not_failed MetadataOutcome.unique hmetadata⟩
  obtain ⟨name, version, number, hfields, -⟩ := hrelease
  obtain ⟨text, htext, hnumber⟩ := hfields.release
  obtain ⟨summary, description, homepage, licenses, hmeta, -⟩ := hmetadata
  obtain ⟨list, hlist, hlicenses⟩ := hmeta.licenses
  have hoptional : ∀ {child : Node} {text : Option Bytes}, IsOptionalText child text →
      FaultFree anyText child := by
    intro child text hread
    obtain ⟨found, hfound, -⟩ := hread
    exact faultFree_anyText hfound.1
  refine FaultFree.record hfields.keys hfailed ?_
  simp only [List.forall_mem_cons]
  refine ⟨Filled.text hfields.name fun _ _ => id, Filled.text hfields.version fun _ _ => id,
    Filled.text htext fun child hchild hnone => hnone number (hchild ▸ hnumber),
    Filled.text hmeta.summary fun _ _ => id, Filled.optional hmeta.description fun _ => hoptional,
    Filled.optional hmeta.homepage fun _ => hoptional, Filled.found hlist ?_, by simp⟩
  exact faultFree_of_isItems hlicenses fun _ _ _ hread => faultFree_anyText hread.1

theorem Filled.format {expected : Bytes} (h : root.Text (ascii "format") expected) :
    Filled root (ascii "format", .required, formatSchema expected) :=
  Filled.text h fun _ htext => not_not.mpr htext

theorem faultFree_recipe {fields : RecipeFields core} (h : IsRecipe core context root fields) :
    FaultFree (recipeSchema core) root := by
  obtain ⟨package, hpackage, -, hrelease, hmetadata⟩ := h.package
  obtain ⟨requirements, hrequirements, hgroups⟩ := h.requirements
  obtain ⟨sources, hsources, hlist⟩ := h.sources
  obtain ⟨build, hbuild, hprogram⟩ := h.build
  have harchitectures : Filled root
      (ascii "architectures", .optional, architecturesSchema core) := by
    have hread := h.architectures
    unfold IsRecipeArchitectures at hread
    cases hfield : root.field? (ascii "architectures") with
    | none => exact Filled.absent hfield
    | some child =>
        rw [hfield] at hread
        exact Filled.found hfield (faultFree_architectures hread)
  refine FaultFree.record h.keys id ?_
  simp only [List.forall_mem_cons]
  refine ⟨Filled.format h.format, Filled.found hpackage (faultFree_package hrelease hmetadata),
    Filled.found hrequirements (faultFree_requirements hgroups),
    Filled.found hsources (faultFree_of_isItems hlist fun _ _ _ => faultFree_source),
    Filled.found hbuild (faultFree_program hprogram),
    Filled.optional h.check fun child hread => ?_,
    Filled.optional h.lifecycle fun _ => faultFree_lifecycle, harchitectures, by simp⟩
  obtain ⟨program, hprogram, -⟩ := hread
  exact faultFree_program hprogram

/-! ### Profiles -/

theorem faultFree_profile {key definition : Node} {declaration : core.ProfileDeclaration}
    (h : IsProfile core context key definition declaration) :
    ¬ProfileRejected core context key definition ∧
      FaultFree (profileSchema core) definition := by
  have haccepted := h
  obtain ⟨reference, site, members, hreference, hsite, ⟨hkeys, list, hlist, hitems⟩, -⟩ := haccepted
  constructor
  · rintro (hrejected | hrejected | hrejected)
    · exact not_rejected hreference hrejected
    · exact not_rejected hsite hrejected
    · exact not_failed ProfileOutcome.unique h hrejected
  · refine FaultFree.record hkeys id ?_
    simp only [List.forall_mem_cons]
    refine ⟨Filled.found hlist (faultFree_of_isItems hitems fun _ _ _ hread => ?_), by simp⟩
    obtain ⟨subject, site, hsubject, -⟩ := hread
    exact faultFree_subject hsubject

theorem faultFree_profiles {declarations : List core.ProfileDeclaration}
    (h : IsProfiles core context root declarations) :
    FaultFree (profilesSchema core context) root := by
  obtain ⟨profiles, hprofiles, hentries⟩ := h.profiles
  refine FaultFree.record h.keys id ?_
  simp only [List.forall_mem_cons]
  exact ⟨Filled.format h.format,
    Filled.found hprofiles (faultFree_of_isEntries hentries fun _ _ _ => faultFree_profile),
    by simp⟩

/-! ### Acceptance -/

/-- A decoder that neither reports a fault nor leaks returns. -/
theorem Reports.returns {α : Type} {Leak : Exception → Prop} {schema : Schema} {path : Bytes}
    {x : Except Exception α} (h : Reports Leak context schema node path x)
    (hleak : ∀ exception, ¬Leak exception) (hfree : FaultFree schema node) : ∃ a, x = .ok a := by
  cases hx : x with
  | ok a => exact ⟨a, rfl⟩
  | error exception =>
      rcases h exception hx with ⟨position, code, mark, message, hfault, -⟩ | hleaked
      · exact absurd hfault (hfree position code mark)
      · exact absurd hleaked (hleak exception)

/-- **No fault slips through.** On every tree `parse_document` returns, for every `libpkgsource`,
origin and evaluation order, a parser returns a result only if the tree has no fault at any
position; and where the unguarded calls succeed, every tree without a fault is accepted. -/
theorem accepted_iff_faultFree (core : Core) (context : Context) (order : EvaluationOrder)
    (input : Input) (limits : ParseLimits) {root : Node}
    (hroot : documentOutcome input context.origin limits = .ok root) :
    ((∃ declaration, parseRecipeYaml core context order input limits = .ok declaration) →
      FaultFree (recipeSchema core) root) ∧
    (UnguardedRecipe core context root → FaultFree (recipeSchema core) root →
      ∃ declaration, parseRecipeYaml core context order input limits = .ok declaration) ∧
    ((∃ declarations, parseProfilesYaml core context input limits = .ok declarations) →
      FaultFree (profilesSchema core context) root) ∧
    (UnguardedProfiles core context root → FaultFree (profilesSchema core context) root →
      ∃ declarations, parseProfilesYaml core context input limits = .ok declarations) := by
  have hvalid := valid_of_documentOutcome hroot
  have hrecipe : parseRecipeYaml core context order input limits =
      recipeValue core context order root := bind_of_ok hroot
  have hprofiles : parseProfilesYaml core context input limits =
      profilesValue core context root := bind_of_ok hroot
  rw [hrecipe, hprofiles]
  refine ⟨fun haccepted => ?_, fun hunguarded => ?_, fun haccepted => ?_, fun hunguarded => ?_⟩
  · obtain ⟨declaration, hdeclaration⟩ := haccepted
    obtain ⟨fields, hfields, -⟩ := (recipeValue_eq_ok_iff hvalid).mp hdeclaration
    exact faultFree_recipe hfields
  · exact (reports_recipeValue hvalid).returns fun _ => hunguarded.not_leak
  · obtain ⟨declarations, hdeclarations⟩ := haccepted
    exact faultFree_profiles ((profilesValue_eq_ok_iff hvalid).mp hdeclarations)
  · exact (reports_profilesValue hvalid).returns fun _ => hunguarded.not_leak

theorem accepted_iff_faultFree_minimal :
    FaultFree (recipeSchema Core.permissive) minimalRecipe.toNode :=
  (accepted_iff_faultFree Core.permissive ⟨⟨ascii "recipe.yaml"⟩, false⟩ .textual
    (.spelling 300 minimalRecipe) {} rfl).1 ⟨(), rfl⟩

end PkgsourceYaml
