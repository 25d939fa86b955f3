import PkgsourceYaml.Proof.RecipeFaults

/-!
# Stability of recipe diagnostics

The arguments of the `recipe_declaration` call are evaluated in an unspecified order, so a recipe
with faults in two of them is reported by whichever comes first. Apart from one overlap in the
package section, where both decoders report a refusal at the section itself, no two arguments ever
report the same category, path and mark.
-/

namespace PkgsourceYaml

open Throwing Unsequenced

variable {core : Core} {context : Context}

/-- Two exceptions a caller cannot tell apart by category, path and mark. -/
def SameReport (exception exception' : Exception) : Prop :=
  ∃ error error', exception = .yaml error ∧ exception' = .yaml error' ∧ error.code = error'.code ∧
    error.path = error'.path ∧ error.mark = error'.mark

/-- The sections that the last call of `parse_recipe_yaml` decodes and that are no good, named by
the argument that decodes them. -/
inductive FaultyArgument (core : Core) (sections : RecipeSections) : RecipeArgument → Prop where
  | release (h : ∀ release, ¬IsRelease core sections.package release) :
      FaultyArgument core sections .release
  | metadata (h : ∀ metadata, ¬IsMetadata core sections.package metadata) :
      FaultyArgument core sections .metadata
  | sources (h : ∀ list, ¬IsSources core sections.sources list) :
      FaultyArgument core sections .sources
  | build (h : ∀ program, ¬IsProgram core sections.build program) :
      FaultyArgument core sections .build
  | requirements (h : ¬RequirementsDocument core sections.requirements) :
      FaultyArgument core sections .requirements
  | architectures (h : ∀ value, ¬IsRecipeArchitectures core sections.root value) :
      FaultyArgument core sections .architectures

/-- The fields of the package section are in order, but `libpkgsource` refuses what is built from
them. -/
inductive Refused (core : Core) (package : Node) : RecipeArgument → Prop where
  | release (failed : CoreError) (h : ReleaseOutcome core package (.error failed)) :
      Refused core package .release
  | metadata (failed : CoreError) (h : MetadataOutcome core package (.error failed)) :
      Refused core package .metadata

/-- The document fails a check made before the call, or at most one argument of the call is faulty,
or the release and the metadata are both refused and nothing else is faulty. -/
def OrderStable (core : Core) (root : Node) : Prop :=
  ∀ sections lifecycle check, @IsRecipeHeader core root sections lifecycle check →
    ∀ left right, FaultyArgument core sections left → FaultyArgument core sections right →
      left = right ∨ Refused core sections.package left ∧ Refused core sections.package right

/-! ### Which arguments throw -/

/-- A computation that returns exactly what is read throws where nothing is read. -/
theorem exists_error_iff {ε α : Type} {x : Except ε α} {P : α → Prop}
    (h : ∀ a, x = .ok a ↔ P a) : (∃ e, x = .error e) ↔ ∀ a, ¬P a := by
  rw [← forall_congr' fun a => not_congr (h a)]
  cases x <;> simp

section

variable {root : Node} {sections : RecipeSections} {lifecycle : List core.LifecycleProgram}
  {check : Option core.Program}

theorem evaluate_throws_iff (hvalid : root.Valid) (hunguarded : UnguardedRecipe core context root)
    (h : IsRecipeHeader root sections lifecycle check) (argument : RecipeArgument) :
    (∃ e, argument.evaluate core context sections = .error e) ↔
      FaultyArgument core sections argument := by
  obtain rfl := h.document
  cases argument with
  | release =>
      apply (exists_error_iff fun _ => packageReleaseValue_eq_ok_iff (hvalid.field h.package)).trans
      refine ⟨.release, fun hfaulty => ?_⟩
      cases hfaulty with
      | release hnone => exact hnone
  | metadata =>
      apply (exists_error_iff fun _ =>
        packageMetadataValue_eq_ok_iff (hvalid.field h.package) h.mapping).trans
      refine ⟨.metadata, fun hfaulty => ?_⟩
      cases hfaulty with
      | metadata hnone => exact hnone
  | sources =>
      apply (exists_error_iff fun _ => sourcesValue_eq_ok_iff (hvalid.field h.sources)).trans
      refine ⟨.sources, fun hfaulty => ?_⟩
      cases hfaulty with
      | sources hnone => exact hnone
  | build =>
      apply (exists_error_iff fun _ => programValue_eq_ok_iff (hvalid.field h.build)).trans
      refine ⟨.build, fun hfaulty => ?_⟩
      cases hfaulty with
      | build hnone => exact hnone
  | requirements =>
      apply (exists_error_iff fun _ =>
        requirementsValue_eq_ok_iff (hvalid.field h.requirements)).trans
      have hexists := exists_isRequirements_iff hunguarded
        (field_mem_nodes sections.root.self_mem_nodes h.requirements)
      constructor
      · intro hnone
        refine .requirements fun hdocument => ?_
        obtain ⟨groups, hgroups⟩ := hexists.mpr hdocument
        exact hnone _ ⟨groups, hgroups, rfl⟩
      · rintro hfaulty declarations ⟨groups, hgroups, -⟩
        cases hfaulty with
        | requirements hnone => exact hnone (hexists.mp ⟨groups, hgroups⟩)
  | architectures =>
      apply (exists_error_iff fun _ => recipeArchitectures_eq_ok_iff hvalid h.keys.1).trans
      refine ⟨.architectures, fun hfaulty => ?_⟩
      cases hfaulty with
      | architectures hnone => exact hnone
  | provenance =>
      obtain ⟨site, hsite⟩ := hunguarded.site _ .document sections.root sections.root.self_mem_nodes
      apply (exists_error_iff fun _ => propagate_eq_ok_iff).trans
      refine ⟨fun hnone => absurd hsite (hnone site), fun hfaulty => ?_⟩
      cases hfaulty

end

/-! ### Where an argument reports -/

/-- The exception is a report whose path begins with this section's. -/
def ReportsSection (context : Context) (path : Bytes) (exception : Exception) : Prop :=
  ∃ code suffix mark message,
    exception = failure code context.origin (path ++ suffix) mark message

theorem renderFrom_prefix {path : Bytes} (hpath : 2 ≤ path.length) (position : List Segment) :
    ∃ suffix, renderFrom path position = path ++ suffix := by
  induction position generalizing path with
  | nil => exact ⟨[], (List.append_nil path).symm⟩
  | cons segment rest ih =>
      have hextend : ∃ suffix, segment.extend path = path ++ suffix := by
        cases segment with
        | key key =>
            have hroot : path ≠ ascii "$" := by
              rintro rfl
              exact absurd hpath (by decide)
            refine ⟨ascii "." ++ key, ?_⟩
            rw [Segment.extend, childPath, if_neg hroot, List.append_assoc]
        | index index =>
            refine ⟨ascii "[" ++ decimal index ++ ascii "]", ?_⟩
            simp only [Segment.extend, indexed, List.append_assoc]
      obtain ⟨suffix, hsuffix⟩ := hextend
      have hlength : 2 ≤ (segment.extend path).length := by
        rw [hsuffix, List.length_append]
        omega
      obtain ⟨more, hmore⟩ := ih hlength
      refine ⟨suffix ++ more, ?_⟩
      calc renderFrom path (segment :: rest)
          = renderFrom (segment.extend path) rest := rfl
        _ = segment.extend path ++ more := hmore
        _ = path ++ (suffix ++ more) := by rw [hsuffix, List.append_assoc]

theorem Reports.inSection {Leak : Exception → Prop} {schema : Schema} {node : Node} {path : Bytes}
    {α : Type} {x : Except Exception α} (h : Reports Leak context schema node path x)
    (hpath : 2 ≤ path.length) (hleak : ∀ exception, ¬Leak exception) :
    Throws x (ReportsSection context path) := by
  intro exception herror
  rcases h exception herror with ⟨position, code, mark, message, -, rfl⟩ | hleaked
  · obtain ⟨suffix, hsuffix⟩ := renderFrom_prefix hpath position
    exact ⟨code, suffix, mark, message, by rw [hsuffix]⟩
  · exact absurd hleaked (hleak exception)

inductive SectionName : RecipeArgument → Bytes → Prop where
  | release : SectionName .release (ascii "package")
  | metadata : SectionName .metadata (ascii "package")
  | sources : SectionName .sources (ascii "sources")
  | build : SectionName .build (ascii "build")
  | requirements : SectionName .requirements (ascii "requirements")
  | architectures : SectionName .architectures (ascii "architectures")

/-- Paths in different sections differ from their first byte on. -/
theorem SectionName.eq_or_package {left right : RecipeArgument} {name name' suffix suffix' : Bytes}
    (hleft : SectionName left name) (hright : SectionName right name')
    (h : name ++ suffix = name' ++ suffix') :
    left = right ∨ (left = .release ∧ right = .metadata) ∨
      (left = .metadata ∧ right = .release) := by
  have hne : ∀ {argument : RecipeArgument} {name : Bytes},
      SectionName argument name → name ≠ [] := by
    intro argument name hname
    cases hname <;> decide
  have hhead : name.head? = name'.head? := by
    rw [← List.head?_append_of_ne_nil name (hne hleft), h,
      List.head?_append_of_ne_nil name' (hne hright)]
  cases hleft <;> cases hright <;>
    first
      | exact Or.inl rfl
      | exact Or.inr (Or.inl ⟨rfl, rfl⟩)
      | exact Or.inr (Or.inr ⟨rfl, rfl⟩)
      | exact absurd hhead (by decide)

section

variable {root : Node} {sections : RecipeSections} {lifecycle : List core.LifecycleProgram}
  {check : Option core.Program}

theorem evaluate_inSection (hvalid : root.Valid) (hunguarded : UnguardedRecipe core context root)
    (h : IsRecipeHeader root sections lifecycle check) {argument : RecipeArgument}
    {exception : Exception} (herror : argument.evaluate core context sections = .error exception) :
    ∃ name, SectionName argument name ∧ ReportsSection context name exception := by
  have hleak : ∀ exception, ¬RecipeLeak core context root exception :=
    fun _ => hunguarded.not_leak
  have hfaulty := (evaluate_throws_iff hvalid hunguarded h argument).mp ⟨exception, herror⟩
  cases hfaulty with
  | release _ =>
      exact ⟨_, .release, (reports_packageReleaseValue (hvalid.field h.package)).inSection
        (by decide) hleak exception herror⟩
  | metadata _ =>
      exact ⟨_, .metadata, (reports_packageMetadataValue (hvalid.field h.package)
        h.mapping).inSection (by decide) hleak exception herror⟩
  | sources _ =>
      exact ⟨_, .sources, (reports_sourcesValue (hvalid.field h.sources)).inSection (by decide)
        hleak exception herror⟩
  | build _ =>
      exact ⟨_, .build, (reports_programValue (hvalid.field h.build)).inSection (by decide) hleak
        exception herror⟩
  | requirements _ =>
      exact ⟨_, .requirements, (reports_requirementsValue (hvalid.field h.requirements)
        (field_mem_nodes root.self_mem_nodes h.requirements)).inSection (by decide) hleak exception
        herror⟩
  | architectures _ =>
      obtain rfl := h.document
      refine ⟨_, .architectures, ?_⟩
      change (findKey context sections.root (ascii "architectures") >>=
        architecturesValue core context) = _ at herror
      rw [findKey_eq hvalid h.keys.1] at herror
      change architecturesValue core context (sections.root.field? (ascii "architectures")) = _
        at herror
      cases hfield : sections.root.field? (ascii "architectures") with
      | none =>
          rw [hfield] at herror
          obtain ⟨value, hvalue⟩ := hunguarded.architectures
          rw [architecturesValue, hvalue] at herror
          cases herror
      | some node =>
          rw [hfield] at herror
          exact (reports_architecturesValue (hvalid.field hfield)).inSection (by decide) hleak
            exception herror

end

/-! ### The package section -/

/-- The exception is a report about the field at this path, at it or below it, and of no unknown
key. -/
def ReportsField (context : Context) (path : Bytes) (exception : Exception) : Prop :=
  ∃ code suffix mark message, code ≠ YamlErrorCode.unknownKey ∧
    exception = failure code context.origin (path ++ suffix) mark message

def Refusal (context : Context) (package : Node) (exception : Exception) : Prop :=
  ∃ message,
    exception = failure .invalidValue context.origin (ascii "package") package.mark message

section

variable {node : Node} {path key : Bytes}

theorem inField_fail {α : Type} {code : YamlErrorCode} {mark : SourceMark} {message : Bytes}
    (hcode : code ≠ .unknownKey) :
    Throws (context.fail code path mark message : Except Exception α) (ReportsField context path) :=
  Throws.throw ⟨code, [], mark, message, hcode, by rw [List.append_nil]⟩

theorem inField_requireKind {expected : NodeKind} {name : Bytes} :
    Throws (requireKind context node expected path name) (ReportsField context path) :=
  Throws.ite (fun _ => inField_fail (by decide)) fun _ => Throws.pure

theorem inField_scalarValue : Throws (scalarValue context node path) (ReportsField context path) :=
  Throws.bind inField_requireKind fun _ _ => Throws.pure

theorem inField_requiredKey (hvalid : node.Valid) (hkind : node.kind = .mapping) :
    Throws (requiredKey context node key path) (ReportsField context (childPath path key)) := by
  rw [requiredKey_eq hvalid hkind]
  cases node.field? key with
  | some value => exact Throws.pure
  | none => exact inField_fail (by decide)

theorem inField_releaseValue :
    Throws (releaseValue context node path) (ReportsField context path) := by
  apply Throws.bind inField_scalarValue
  intro _ _
  apply Throws.ite (fun _ => inField_fail (by decide))
  intro _
  exact Throws.ite (fun _ => inField_fail (by decide)) fun _ => Throws.pure

theorem inField_optionalScalar (hvalid : node.Valid) (hkind : node.kind = .mapping) :
    Throws (optionalScalar context node key path) (ReportsField context path) := by
  refine Throws.bind (throws_findKey hvalid hkind) fun found _ => ?_
  cases found with
  | none => exact Throws.pure
  | some value => exact Throws.bind inField_scalarValue fun _ _ => Throws.pure

theorem ReportsField.indexed {index : Nat} {exception : Exception}
    (h : ReportsField context (indexed path index) exception) :
    ReportsField context path exception := by
  obtain ⟨code, suffix, mark, message, hcode, rfl⟩ := h
  refine ⟨code, ascii "[" ++ decimal index ++ ascii "]" ++ suffix, mark, message, hcode, ?_⟩
  simp only [PkgsourceYaml.indexed, List.append_assoc]

theorem inField_scalars (entries : List Node) (index : Nat) :
    Throws (eachItem path (fun itemPath entry => scalarValue context entry itemPath) entries index)
      (ReportsField context path) := by
  induction entries generalizing index with
  | nil => exact Throws.pure
  | cons entry rest ih =>
      exact Throws.bind (Throws.mono inField_scalarValue fun _ => ReportsField.indexed) fun _ _ =>
        Throws.bind (ih (index + 1)) fun _ _ => Throws.pure

end

def releaseKeys : List Bytes := [ascii "name", ascii "version", ascii "release"]

def metadataKeys : List Bytes :=
  [ascii "summary", ascii "description", ascii "homepage", ascii "licenses"]

/-- The exception is a report about one of these fields of the package section. -/
def ReportsPackageField (context : Context) (keys : List Bytes) (exception : Exception) : Prop :=
  ∃ key ∈ keys, ReportsField context (childPath (ascii "package") key) exception

theorem throws_inField {keys : List Bytes} {P : Exception → Prop}
    (hP : ∀ exception, ReportsPackageField context keys exception → P exception) {α : Type}
    {x : Except Exception α} {path : Bytes} (key : Bytes)
    (hpath : path = childPath (ascii "package") key) (hkey : key ∈ keys)
    (h : Throws x (ReportsField context path)) : Throws x P :=
  Throws.mono h fun _ hat => hP _ ⟨key, hkey, hpath ▸ hat⟩

/-- Release decoding refuses the section, rejects a key of it, or reports one of its own fields. -/
theorem throws_packageReleaseValue {node : Node} (hvalid : node.Valid)
    (hkind : node.kind = .mapping) :
    Throws (packageReleaseValue core context node) fun exception =>
      ((∃ failed, ReleaseOutcome core node (.error failed)) ∧ Refusal context node exception) ∨
        (∃ path mark message, exception = failure .unknownKey context.origin path mark message) ∨
        ReportsPackageField context releaseKeys exception := by
  have hown : ∀ exception, ReportsPackageField context releaseKeys exception →
      ((∃ failed, ReleaseOutcome core node (.error failed)) ∧ Refusal context node exception) ∨
        (∃ path mark message, exception = failure .unknownKey context.origin path mark message) ∨
        ReportsPackageField context releaseKeys exception :=
    fun _ h => Or.inr (Or.inr h)
  refine Throws.bind (throws_allowKeys hvalid hkind fun _ _ _ message =>
    Or.inr (Or.inl ⟨_, _, message, rfl⟩)) fun _ hkeys => ?_
  rw [← packageKeys, allowKeys_eq_ok_iff hvalid] at hkeys
  refine Throws.bind (throws_inField hown (ascii "name") rfl (by decide)
    (inField_requiredKey hvalid hkind)) fun nameNode hname => ?_
  refine Throws.bind (throws_inField hown (ascii "version") rfl (by decide)
    (inField_requiredKey hvalid hkind)) fun versionNode hversion => ?_
  refine Throws.bind (throws_inField hown (ascii "release") rfl (by decide)
    (inField_requiredKey hvalid hkind)) fun releaseNode hrelease => ?_
  rw [requiredKey_eq_ok_iff hvalid hkind] at hname hversion hrelease
  refine Throws.bind (throws_inField hown (ascii "name") (by decide) (by decide)
    inField_scalarValue) fun name hnameText => ?_
  refine Throws.bind (throws_inField hown (ascii "version") (by decide) (by decide)
    inField_scalarValue) fun version hversionText => ?_
  refine Throws.bind (throws_inField hown (ascii "release") (by decide) (by decide)
    inField_releaseValue) fun number hnumber => ?_
  rw [scalarValue_eq_ok_iff] at hnameText hversionText
  obtain ⟨text, htext, hcanonical⟩ := releaseValue_eq_ok_iff.mp hnumber
  cases hcall : core.packageReleaseOf name version number with
  | ok release => exact Throws.pure
  | error failed =>
      exact Throws.throw (Or.inl ⟨⟨failed, name, version, number, ⟨hkeys,
        ⟨nameNode, hname, hnameText⟩, ⟨versionNode, hversion, hversionText⟩,
        text, ⟨releaseNode, hrelease, htext⟩, hcanonical⟩, hcall⟩, failed.what, rfl⟩)

/-- Metadata decoding refuses the section or reports one of its own fields. -/
theorem throws_packageMetadataValue {node : Node} (hvalid : node.Valid)
    (hkind : node.kind = .mapping) :
    Throws (packageMetadataValue core context node) fun exception =>
      ((∃ failed, MetadataOutcome core node (.error failed)) ∧ Refusal context node exception) ∨
        ReportsPackageField context metadataKeys exception := by
  have hown : ∀ exception, ReportsPackageField context metadataKeys exception →
      ((∃ failed, MetadataOutcome core node (.error failed)) ∧ Refusal context node exception) ∨
        ReportsPackageField context metadataKeys exception :=
    fun _ h => Or.inr h
  refine Throws.bind (throws_inField hown (ascii "summary") rfl (by decide)
    (inField_requiredKey hvalid hkind)) fun summaryNode hsummary => ?_
  refine Throws.bind (throws_inField hown (ascii "licenses") rfl (by decide)
    (inField_requiredKey hvalid hkind)) fun list hlist => ?_
  rw [requiredKey_eq_ok_iff hvalid hkind] at hsummary hlist
  refine Throws.bind (throws_inField hown (ascii "summary") (by decide) (by decide)
    inField_scalarValue) fun summary hsummaryText => ?_
  refine Throws.bind (throws_inField hown (ascii "description") (by decide) (by decide)
    (inField_optionalScalar hvalid hkind)) fun description hdescription => ?_
  refine Throws.bind (throws_inField hown (ascii "homepage") (by decide) (by decide)
    (inField_optionalScalar hvalid hkind)) fun homepage hhomepage => ?_
  refine Throws.bind (throws_inField hown (ascii "licenses") (by decide) (by decide)
    (Throws.bind inField_requireKind fun _ _ => Throws.pure)) fun entries hentries => ?_
  refine Throws.bind (throws_inField hown (ascii "licenses") (by decide) (by decide)
    (inField_scalars entries 0)) fun licenses hlicenses => ?_
  rw [scalarValue_eq_ok_iff] at hsummaryText
  rw [optionalScalar_eq_ok_iff hvalid hkind] at hdescription hhomepage
  have hitems := (licenses_eq_ok_iff (hvalid.field hlist)).mp ⟨entries, hentries, hlicenses⟩
  cases hcall : core.packageMetadata summary description homepage licenses with
  | ok metadata => exact Throws.pure
  | error failed =>
      exact Throws.throw (Or.inl ⟨⟨failed, summary, description, homepage, licenses,
        ⟨⟨summaryNode, hsummary, hsummaryText⟩, hdescription, hhomepage, list, hlist, hitems⟩,
        hcall⟩, failed.what, rfl⟩)

/-! ### Which reports are the same -/

theorem sameReport_failure {code code' : YamlErrorCode} {origin : SourceOrigin}
    {path path' : Bytes} {mark mark' : SourceMark} {message message' : Bytes} :
    SameReport (failure code origin path mark message) (failure code' origin path' mark' message') ↔
      code = code' ∧ path = path' ∧ mark = mark' := by
  constructor
  · rintro ⟨error, error', herror, herror', h⟩
    obtain rfl := Exception.yaml.inj herror
    obtain rfl := Exception.yaml.inj herror'
    exact h
  · exact fun h => ⟨_, _, rfl, rfl, h⟩

theorem SameReport.symm {exception exception' : Exception} (h : SameReport exception exception') :
    SameReport exception' exception := by
  obtain ⟨error, error', herror, herror', hcode, hpath, hmark⟩ := h
  exact ⟨error', error, herror', herror, hcode.symm, hpath.symm, hmark.symm⟩

theorem childPath_package (key : Bytes) :
    childPath (ascii "package") key = ascii "package." ++ key := by
  rw [childPath, if_neg (by decide)]
  rfl

theorem ReportsPackageField.not_sameReport {exception exception' : Exception}
    (h : ReportsPackageField context releaseKeys exception)
    (h' : ReportsPackageField context metadataKeys exception') :
    ¬SameReport exception exception' := by
  obtain ⟨key, hkey, code, suffix, mark, message, -, rfl⟩ := h
  obtain ⟨key', hkey', code', suffix', mark', message', -, rfl⟩ := h'
  rw [sameReport_failure]
  rintro ⟨-, hpath, -⟩
  rw [childPath_package, childPath_package, List.append_assoc, List.append_assoc,
    List.append_cancel_left_eq] at hpath
  have hkeys : ∀ key ∈ releaseKeys, ∀ key' ∈ metadataKeys,
      key ≠ [] ∧ key' ≠ [] ∧ key.head? ≠ key'.head? := by decide
  obtain ⟨hne, hne', hhead⟩ := hkeys key hkey key' hkey'
  apply hhead
  rw [← List.head?_append_of_ne_nil key hne, hpath, List.head?_append_of_ne_nil key' hne']

/-- A refusal is reported at the section, anything else at or below one of its keys. -/
theorem ReportsPackageField.not_sameReport_refusal {keys : List Bytes} {package : Node}
    {exception exception' : Exception} (h : ReportsPackageField context keys exception)
    (h' : Refusal context package exception') : ¬SameReport exception exception' := by
  obtain ⟨key, -, code, suffix, mark, message, -, rfl⟩ := h
  obtain ⟨message', rfl⟩ := h'
  rw [sameReport_failure]
  rintro ⟨-, hpath, -⟩
  have hlength := congrArg List.length hpath
  rw [childPath_package, List.length_append, List.length_append] at hlength
  have hpackage : (ascii "package.").length = 8 ∧ (ascii "package").length = 7 := by decide
  omega

/-- The release and the metadata report the same only when both are refused. -/
theorem refused_of_sameReport {node : Node} (hvalid : node.Valid) (hkind : node.kind = .mapping)
    {exception exception' : Exception}
    (h : packageReleaseValue core context node = .error exception)
    (h' : packageMetadataValue core context node = .error exception')
    (hsame : SameReport exception exception') :
    Refused core node .release ∧ Refused core node .metadata := by
  have hrelease := throws_packageReleaseValue hvalid hkind exception h
  have hmetadata := throws_packageMetadataValue hvalid hkind exception' h'
  rcases hmetadata with ⟨⟨failed', hfailed'⟩, hrefusal'⟩ | hfield'
  · rcases hrelease with ⟨⟨failed, hfailed⟩, -⟩ | ⟨path, mark, message, rfl⟩ | hfield
    · exact ⟨.release failed hfailed, .metadata failed' hfailed'⟩
    · obtain ⟨message', rfl⟩ := hrefusal'
      exact absurd (sameReport_failure.mp hsame).1 (by decide)
    · exact absurd hsame (hfield.not_sameReport_refusal hrefusal')
  · rcases hrelease with ⟨-, hrefusal⟩ | ⟨path, mark, message, rfl⟩ | hfield
    · exact absurd hsame.symm (hfield'.not_sameReport_refusal hrefusal)
    · obtain ⟨key', -, code', suffix', mark', message', hcode', rfl⟩ := hfield'
      exact absurd (sameReport_failure.mp hsame).1.symm hcode'
    · exact absurd hsame (hfield.not_sameReport hfield')

theorem packageReleaseValue_of_refused {node : Node} (hvalid : node.Valid) {failed : CoreError}
    (h : ReleaseOutcome core node (.error failed)) :
    packageReleaseValue core context node =
      .error (failure .invalidValue context.origin (ascii "package") node.mark failed.what) := by
  obtain ⟨name, version, number, ⟨hkeys, ⟨nameNode, hname, hnameText⟩,
    ⟨versionNode, hversion, hversionText⟩, text, ⟨releaseNode, hrelease, htext⟩, hcanonical⟩,
    hcall⟩ := h
  have hkind := hkeys.1
  unfold packageReleaseValue
  apply (bind_of_ok ((allowKeys_eq_ok_iff hvalid).mpr hkeys)).trans
  apply (bind_of_ok ((requiredKey_eq_ok_iff hvalid hkind).mpr hname)).trans
  apply (bind_of_ok ((requiredKey_eq_ok_iff hvalid hkind).mpr hversion)).trans
  apply (bind_of_ok ((requiredKey_eq_ok_iff hvalid hkind).mpr hrelease)).trans
  apply (bind_of_ok (scalarValue_eq_ok_iff.mpr hnameText)).trans
  apply (bind_of_ok (scalarValue_eq_ok_iff.mpr hversionText)).trans
  apply (bind_of_ok (releaseValue_eq_ok_iff.mpr ⟨text, htext, hcanonical⟩)).trans
  rw [hcall]
  rfl

theorem packageMetadataValue_of_refused {node : Node} (hvalid : node.Valid)
    (hkind : node.kind = .mapping) {failed : CoreError}
    (h : MetadataOutcome core node (.error failed)) :
    packageMetadataValue core context node =
      .error (failure .invalidValue context.origin (ascii "package") node.mark failed.what) := by
  obtain ⟨summary, description, homepage, licenses, ⟨⟨summaryNode, hsummary, hsummaryText⟩,
    hdescription, hhomepage, list, hlist, hitems⟩, hcall⟩ := h
  obtain ⟨entries, hentries, hlicenses⟩ := (licenses_eq_ok_iff (hvalid.field hlist)).mpr hitems
  unfold packageMetadataValue
  apply (bind_of_ok ((requiredKey_eq_ok_iff hvalid hkind).mpr hsummary)).trans
  apply (bind_of_ok ((requiredKey_eq_ok_iff hvalid hkind).mpr hlist)).trans
  apply (bind_of_ok (scalarValue_eq_ok_iff.mpr hsummaryText)).trans
  apply (bind_of_ok ((optionalScalar_eq_ok_iff hvalid hkind).mpr hdescription)).trans
  apply (bind_of_ok ((optionalScalar_eq_ok_iff hvalid hkind).mpr hhomepage)).trans
  apply (bind_of_ok hentries).trans
  apply (bind_of_ok hlicenses).trans
  rw [hcall]
  rfl

theorem Refused.refusal {sections : RecipeSections} (hvalid : sections.package.Valid)
    (hkind : sections.package.kind = .mapping) {argument : RecipeArgument}
    (h : Refused core sections.package argument) {exception : Exception}
    (herror : argument.evaluate core context sections = .error exception) :
    Refusal context sections.package exception := by
  cases h with
  | release failed h =>
      exact ⟨failed.what, Except.error.inj (herror.symm.trans
        (packageReleaseValue_of_refused hvalid h))⟩
  | metadata failed h =>
      exact ⟨failed.what, Except.error.inj (herror.symm.trans
        (packageMetadataValue_of_refused hvalid hkind h))⟩

/-- Any two arguments that throw report the same exactly when the document is stable at them. -/
theorem sameReport_iff {root : Node} {sections : RecipeSections}
    {lifecycle : List core.LifecycleProgram} {check : Option core.Program} (hvalid : root.Valid)
    (hunguarded : UnguardedRecipe core context root)
    (h : IsRecipeHeader root sections lifecycle check) :
    (∀ left right exception exception',
      RecipeArgument.evaluate core context sections left = .error exception →
      RecipeArgument.evaluate core context sections right = .error exception' →
      SameReport exception exception') ↔
    ∀ left right, FaultyArgument core sections left → FaultyArgument core sections right →
      left = right ∨ Refused core sections.package left ∧ Refused core sections.package right := by
  have hpackage := hvalid.field h.package
  have hthrows := evaluate_throws_iff hvalid hunguarded h
  constructor
  · intro hsame left right hleft hright
    obtain ⟨exception, herror⟩ := (hthrows left).mpr hleft
    obtain ⟨exception', herror'⟩ := (hthrows right).mpr hright
    have hreport := hsame left right exception exception' herror herror'
    obtain ⟨name, hname, code, suffix, mark, message, rfl⟩ :=
      evaluate_inSection hvalid hunguarded h herror
    obtain ⟨name', hname', code', suffix', mark', message', rfl⟩ :=
      evaluate_inSection hvalid hunguarded h herror'
    rcases hname.eq_or_package hname' (sameReport_failure.mp hreport).2.1 with
      heq | ⟨rfl, rfl⟩ | ⟨rfl, rfl⟩
    · exact Or.inl heq
    · exact Or.inr (refused_of_sameReport hpackage h.mapping herror herror' hreport)
    · exact Or.inr (refused_of_sameReport hpackage h.mapping herror' herror hreport.symm).symm
  · intro hstable left right exception exception' herror herror'
    have hleft := (hthrows left).mp ⟨exception, herror⟩
    have hright := (hthrows right).mp ⟨exception', herror'⟩
    rcases hstable left right hleft hright with rfl | ⟨hrefused, hrefused'⟩
    · obtain rfl := Except.error.inj (herror.symm.trans herror')
      obtain ⟨_, -, _, _, _, _, rfl⟩ := evaluate_inSection hvalid hunguarded h herror
      exact sameReport_failure.mpr ⟨rfl, rfl, rfl⟩
    · obtain ⟨message, rfl⟩ := hrefused.refusal hpackage h.mapping herror
      obtain ⟨message', rfl⟩ := hrefused'.refusal hpackage h.mapping herror'
      exact sameReport_failure.mpr ⟨rfl, rfl, rfl⟩

/-! ### All orders -/

theorem recipeValue_of_error {root : Node} {order : EvaluationOrder} {exception : Exception}
    (h : recipeSections core context root = .error exception) :
    recipeValue core context order root = .error exception := by
  rw [recipeValue, h]
  rfl

theorem recipeValue_of_ok {root : Node} {order : EvaluationOrder} {sections : RecipeSections}
    {lifecycle : List core.LifecycleProgram} {check : Option core.Program}
    (h : recipeSections core context root = .ok (sections, lifecycle, check)) :
    recipeValue core context order root =
      recipeDeclarationCall core context order sections lifecycle check := by
  rw [recipeValue, bind_of_ok h]

/-- The call ends alike in all orders exactly when any two arguments that throw report the same. -/
theorem recipeDeclarationCall_endsAlike_iff {root : Node}
    (hunguarded : UnguardedRecipe core context root) (sections : RecipeSections)
    (lifecycle : List core.LifecycleProgram) (check : Option core.Program) :
    (∀ order order', EndsAlike SameReport
      (recipeDeclarationCall core context order sections lifecycle check)
      (recipeDeclarationCall core context order' sections lifecycle check)) ↔
    ∀ left right exception exception',
      RecipeArgument.evaluate core context sections left = .error exception →
      RecipeArgument.evaluate core context sections right = .error exception' →
      SameReport exception exception' := by
  have hfunction : ∀ value : ∀ argument : RecipeArgument, argument.Value core,
      ∃ declaration, propagate (core.recipeDeclaration (value .release) (value .metadata)
        (value .sources) (value .build) (value .requirements) lifecycle (value .architectures)
        (value .provenance) check) = .ok declaration := by
    intro value
    obtain ⟨declaration, hdeclaration⟩ := hunguarded.recipe _ _ _ _ _ _ _ _ _
    exact ⟨declaration, propagate_eq_ok_iff.mpr hdeclaration⟩
  have hcomplete := EvaluationOrder.complete .textual
  constructor
  · intro h
    refine (call_endsAlike_iff hcomplete hfunction).mp ?_
    intro left right hleft hright
    exact h ⟨left, hleft⟩ ⟨right, hright⟩
  · intro h order order'
    exact (call_endsAlike_iff hcomplete hfunction).mpr h order.arguments order'.arguments order.perm
      order'.perm

theorem recipeValue_stable_iff {root : Node} (hvalid : root.Valid)
    (hunguarded : UnguardedRecipe core context root) :
    (∀ order order', EndsAlike SameReport (recipeValue core context order root)
      (recipeValue core context order' root)) ↔ OrderStable core root := by
  cases hsections : recipeSections core context root with
  | error exception =>
      have hyaml : exception.IsYaml := by
        rcases reports_recipeSections hvalid exception hsections with ⟨_, _, _, _, -, rfl⟩ | hleak
        · exact isYaml_failure _ _ _ _ _
        · exact absurd hleak hunguarded.not_leak
      obtain ⟨error, rfl⟩ := hyaml
      constructor
      · intro _ sections lifecycle check hheader
        rw [(recipeSections_eq_ok_iff hvalid).mpr hheader] at hsections
        cases hsections
      · intro _ order order'
        exact Or.inr ⟨_, _, recipeValue_of_error hsections, recipeValue_of_error hsections,
          error, error, rfl, rfl, rfl, rfl, rfl⟩
  | ok header =>
      obtain ⟨sections, lifecycle, check⟩ := header
      have hheader := (recipeSections_eq_ok_iff hvalid).mp hsections
      have hstable : OrderStable core root ↔ ∀ left right, FaultyArgument core sections left →
          FaultyArgument core sections right →
          left = right ∨
            Refused core sections.package left ∧ Refused core sections.package right := by
        constructor
        · exact fun h => h sections lifecycle check hheader
        · intro h sections' lifecycle' check' hheader'
          have hsame := hsections.symm.trans ((recipeSections_eq_ok_iff hvalid).mpr hheader')
          obtain ⟨rfl, -⟩ := Prod.mk.inj (Except.ok.inj hsame)
          exact h
      rw [hstable, ← sameReport_iff hvalid hunguarded hheader,
        ← recipeDeclarationCall_endsAlike_iff hunguarded sections lifecycle check]
      have hcall : ∀ order, recipeValue core context order root =
          recipeDeclarationCall core context order sections lifecycle check :=
        fun order => recipeValue_of_ok hsections
      simp only [hcall]

/-- A recipe that is accepted in one order is accepted in every order, as the same declaration. -/
theorem recipeValue_eq_ok_of_order {root : Node} (hvalid : root.Valid) {order : EvaluationOrder}
    (order' : EvaluationOrder) {declaration : core.RecipeDeclaration}
    (h : recipeValue core context order root = .ok declaration) :
    recipeValue core context order' root = .ok declaration := by
  rw [recipeValue_eq_ok_iff hvalid] at h ⊢
  exact h

/-- **Argument order.** Where the unguarded calls of `libpkgsource` succeed, `parse_recipe_yaml`
ends with the same declaration, or with the same category, path and mark, for any two orders of
evaluating the arguments of its last call, exactly when the tree is stable. -/
theorem parseRecipeYaml_stable_iff (core : Core) (context : Context) (input : Input)
    (limits : ParseLimits) {root : Node}
    (hroot : documentOutcome input context.origin limits = .ok root)
    (hunguarded : UnguardedRecipe core context root) :
    (∀ order order', EndsAlike SameReport (parseRecipeYaml core context order input limits)
      (parseRecipeYaml core context order' input limits)) ↔ OrderStable core root := by
  rw [← recipeValue_stable_iff (valid_of_documentOutcome hroot) hunguarded]
  have hparse : ∀ order, parseRecipeYaml core context order input limits =
      recipeValue core context order root := by
    intro order
    rw [parseRecipeYaml, bind_of_ok hroot]
  simp only [hparse]

theorem parseRecipeYaml_stable_iff_minimal : OrderStable Core.permissive minimalRecipe.toNode := by
  have hroot : documentOutcome (.spelling 300 minimalRecipe) ⟨ascii "recipe.yaml"⟩ {} =
    .ok minimalRecipe.toNode := rfl
  have haccepted : ∀ order, parseRecipeYaml Core.permissive ⟨⟨ascii "recipe.yaml"⟩, false⟩ order
      (.spelling 300 minimalRecipe) {} = .ok () := by
    intro order
    rw [parseRecipeYaml, bind_of_ok hroot]
    have htextual : recipeValue Core.permissive ⟨⟨ascii "recipe.yaml"⟩, false⟩ .textual
      minimalRecipe.toNode = .ok () := rfl
    exact recipeValue_eq_ok_of_order (valid_of_documentOutcome hroot) order htextual
  exact (parseRecipeYaml_stable_iff Core.permissive ⟨⟨ascii "recipe.yaml"⟩, false⟩
    (.spelling 300 minimalRecipe) {} hroot (unguardedRecipe_permissive _ _)).mp
    fun order order' => Or.inl ⟨(), haccepted order, haccepted order'⟩

def clashingRecipe : EventTree :=
  .fields
    [("format", .text "zeppe-lin.recipe/1"),
      ("package", .fields
        [("name", .text "demo"), ("release", .text "1"), ("summary", .text "A demo"),
          ("licenses", .items [.text "MIT"])]),
      ("requirements", .fields []),
      ("sources", .items []),
      ("build", .fields [("language", .text "bash"), ("script", .text "make")])]

def EvaluationOrder.buildFirst : EvaluationOrder where
  arguments := [.build, .release, .metadata, .sources, .requirements, .architectures, .provenance]
  perm := by decide

theorem clashingRecipe_unstable :
    parseRecipeYaml Core.permissive ⟨⟨ascii "recipe.yaml"⟩, false⟩ .textual
        (.spelling 300 clashingRecipe) {} =
      .error (failure .missingKey ⟨ascii "recipe.yaml"⟩ (ascii "package.version") ⟨1, 1⟩
        (ascii "missing required key: version")) ∧
    parseRecipeYaml Core.permissive ⟨⟨ascii "recipe.yaml"⟩, false⟩ .buildFirst
        (.spelling 300 clashingRecipe) {} =
      .error (failure .invalidValue ⟨ascii "recipe.yaml"⟩ (ascii "build.language") ⟨1, 1⟩
        (ascii "language must be exactly posix-shell")) ∧
    ¬∀ order order', EndsAlike SameReport
      (parseRecipeYaml Core.permissive ⟨⟨ascii "recipe.yaml"⟩, false⟩ order
        (.spelling 300 clashingRecipe) {})
      (parseRecipeYaml Core.permissive ⟨⟨ascii "recipe.yaml"⟩, false⟩ order'
        (.spelling 300 clashingRecipe) {}) := by
  have htextual : parseRecipeYaml Core.permissive ⟨⟨ascii "recipe.yaml"⟩, false⟩ .textual
        (.spelling 300 clashingRecipe) {} =
      .error (failure .missingKey ⟨ascii "recipe.yaml"⟩ (ascii "package.version") ⟨1, 1⟩
        (ascii "missing required key: version")) := rfl
  have hbuild : parseRecipeYaml Core.permissive ⟨⟨ascii "recipe.yaml"⟩, false⟩ .buildFirst
        (.spelling 300 clashingRecipe) {} =
      .error (failure .invalidValue ⟨ascii "recipe.yaml"⟩ (ascii "build.language") ⟨1, 1⟩
        (ascii "language must be exactly posix-shell")) := rfl
  refine ⟨htextual, hbuild, fun h => ?_⟩
  have hends := h .textual .buildFirst
  rw [htextual, hbuild] at hends
  rcases hends with ⟨a, ha, -⟩ | ⟨e, e', he, he', hsame⟩
  · cases ha
  · rw [← Except.error.inj he, ← Except.error.inj he'] at hsame
    exact absurd (sameReport_failure.mp hsame).1 (by decide)

end PkgsourceYaml
