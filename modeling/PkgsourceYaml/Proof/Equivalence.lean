import PkgsourceYaml.Proof.Decoding
import PkgsourceYaml.Proof.Order
import PkgsourceYaml.Proof.Plan

/-!
# The same document makes the same declarations

Two documents that mean the same are read to the same values, section by section, and only the
places of the declarations can tell them apart. With a `libpkgsource` that keeps its arguments apart
this is all that a parser keeps of a document.
-/

namespace PkgsourceYaml

open Throwing Entrywise Interpretation

variable {core : Core} {context context' : Context} {node node' : Node}

/-! ### Trees of the same content -/

/-- Runs over the same tree, where nothing is said about marks. -/
def everywhere (context context' : Context) : Correspondence Core.recording context context' where
  Mark _ _ := True
  Failed _ _ := True
  Thrown _ _ := True
  Site _ _ := True
  Requirement := RequirementUpTo Core.recording fun _ _ => True
  Member := MemberUpTo Core.recording fun _ _ => True
  Profile := ProfileUpTo Core.recording fun _ _ => True
  Recipe := RecipeUpTo Core.recording fun _ _ => True
  failed_refl _ := trivial
  failure _ _ _ _ _ _ := trivial
  rejection _ _ _ _ _ _ _ := trivial
  escape _ _ _ := trivial
  site _ _ _ _ := Agrees.ok trivial
  requirement scope subject site site' _ :=
    Agrees.ok ⟨scope, subject, site, site', trivial, rfl, rfl⟩
  member subject site site' _ := Agrees.ok ⟨subject, site, site', trivial, rfl, rfl⟩
  profile reference site site' members members' _ hmembers :=
    Agrees.ok ⟨reference, site, site', members, members', trivial, hmembers, rfl, rfl⟩
  recipe release metadata sources build requirements requirements' lifecycle architectures site
      site' check hrequirements _ :=
    Agrees.ok ⟨release, metadata, sources, build, requirements, requirements', lifecycle,
      architectures, site, site', check, hrequirements, trivial, rfl, rfl⟩

theorem Node.SameContent.exists_middle (h : node.SameContent node') (hvalid : node.Valid)
    (hvalid' : node'.Valid) :
    ∃ middle, Twin node middle ∧ Matched (fun _ _ => True) middle node' := by
  obtain ⟨middle, hpermuted, halike⟩ := h
  have hmiddle := hpermuted.valid hvalid
  exact ⟨middle, ⟨hpermuted, hvalid, hmiddle⟩, ⟨halike, hmiddle, hvalid'⟩⟩

theorem Node.SameContent.kind (h : node.SameContent node') : node'.kind = node.kind := by
  obtain ⟨middle, hpermuted, halike⟩ := h
  rw [halike.kind_eq, hpermuted.same.1]

theorem Node.SameContent.scalar (h : node.SameContent node') : node'.scalar = node.scalar := by
  obtain ⟨middle, hpermuted, halike⟩ := h
  rw [halike.scalar_eq, hpermuted.same.2.2]

/-- Sequences of the same content have the same items. -/
theorem Node.SameContent.items (h : node.SameContent node') (hkind : node.kind = .sequence) :
    List.Forall₂ Node.SameContent node.children node'.children := by
  obtain ⟨middle, hpermuted, halike⟩ := h
  have hchildren : List.Forall₂ (Node.Alike fun _ _ => True) middle.children node'.children := by
    cases halike with
    | intro _ hchildren => exact hchildren
  exact forall₂_trans (fun _ middle _ hpermuted halike => ⟨middle, hpermuted, halike⟩)
    (hpermuted.ordered (by rw [hkind]; decide)) hchildren

/-! ### Sections that say the same -/

/-- A section of nodes of one kind that is read without looking at marks: what it takes to carry a
reading over to a tree of the same content. -/
structure Readable {π : Type} (kind : NodeKind) (Plans : Node → π → Prop)
    (value : Context → Node → Except Exception π) : Prop where
  decides : ∀ context node plan, node.Valid → node.kind = kind →
    (value context node = .ok plan ↔ Plans node plan)
  reordered : ∀ node node' plan, Twin node node' → node.kind = kind → Plans node plan →
    Plans node' plan
  remarked : ∀ context node node', Matched (fun _ _ => True) node node' → node.kind = kind →
    Agrees (fun _ _ => True) Eq (value context node) (value context node')

/-- A section has one reading over all trees of the same content. -/
theorem Readable.eq {π : Type} {kind : NodeKind} {Plans : Node → π → Prop}
    {value : Context → Node → Except Exception π} (hreadable : Readable kind Plans value)
    (h : node.SameContent node') (hvalid : node.Valid) (hvalid' : node'.Valid)
    (hkind : node.kind = kind) {plan plan' : π} (hplan : Plans node plan)
    (hplan' : Plans node' plan') : plan = plan' := by
  obtain ⟨middle, htwin, hmatched⟩ := h.exists_middle hvalid hvalid'
  let context : Context := ⟨⟨[]⟩, false⟩
  have hmiddle : value context middle = .ok plan :=
    (hreadable.decides context middle plan htwin.valid' (htwin.kind.trans hkind)).mpr
      (hreadable.reordered node middle plan htwin hkind hplan)
  have hright : value context node' = .ok plan' :=
    (hreadable.decides context node' plan' hvalid' (h.kind.trans hkind)).mpr hplan'
  have hagrees := hreadable.remarked context middle node' hmatched (htwin.kind.trans hkind)
  rw [hmiddle, hright] at hagrees
  cases hagrees with
  | ok heq => exact heq

theorem readable_subject : Readable .mapping (IsSubject Core.recording) fun context node =>
    subjectValue Core.recording context node [] where
  decides _ _ _ hvalid _ := subjectValue_eq_ok_iff hvalid
  reordered _ _ _ htwin _ := htwin.isSubject
  remarked context _ _ hmatched _ := agrees_subjectValue (everywhere context context) hmatched []

theorem readable_program : Readable .mapping (IsProgram Core.recording) fun context node =>
    programValue Core.recording context node [] where
  decides _ _ _ hvalid _ := programValue_eq_ok_iff hvalid
  reordered _ _ _ htwin _ := htwin.isProgram
  remarked context _ _ hmatched _ := agrees_programValue (everywhere context context) hmatched []

theorem readable_sources : Readable .sequence (IsSources Core.recording) fun context node =>
    sourcesValue Core.recording context node [] where
  decides _ _ _ hvalid _ := sourcesValue_eq_ok_iff hvalid
  reordered _ _ _ htwin _ := htwin.isSources
  remarked context _ _ hmatched _ := agrees_sourcesValue (everywhere context context) hmatched []

theorem readable_release : Readable .mapping (IsRelease Core.recording)
    (packageReleaseValue Core.recording) where
  decides _ _ _ hvalid _ := packageReleaseValue_eq_ok_iff hvalid
  reordered _ _ _ htwin _ := htwin.isRelease
  remarked context _ _ hmatched _ :=
    agrees_packageReleaseValue (everywhere context context) hmatched

theorem readable_metadata : Readable .mapping (IsMetadata Core.recording)
    (packageMetadataValue Core.recording) where
  decides _ _ _ hvalid hkind := packageMetadataValue_eq_ok_iff hvalid hkind
  reordered _ _ _ htwin hkind := htwin.isMetadata hkind
  remarked context _ _ hmatched hkind :=
    agrees_packageMetadataValue (everywhere context context) hmatched hkind

/-- The same over any `libpkgsource`, when what is read is read through a plan. -/
theorem Readable.eq_of_planned {π α : Type} {kind : NodeKind} {Plans : Node → π → Prop}
    {value : Context → Node → Except Exception π} (hreadable : Readable kind Plans value)
    (Reads : Node → α → Prop) (interpret : π → Except CoreError α)
    (hplanned : ∀ node a, Reads node a ↔ ∃ plan, Plans node plan ∧ interpret plan = .ok a)
    (h : node.SameContent node') (hvalid : node.Valid) (hvalid' : node'.Valid)
    (hkind : node.kind = kind) {a b : α} (ha : Reads node a) (hb : Reads node' b) : a = b := by
  obtain ⟨plan, hplan, hinterpreted⟩ := (hplanned node a).mp ha
  obtain ⟨plan', hplan', hinterpreted'⟩ := (hplanned node' b).mp hb
  obtain rfl := hreadable.eq h hvalid hvalid' hkind hplan hplan'
  exact Except.ok.inj (hinterpreted.symm.trans hinterpreted')

section

variable (h : node.SameContent node') (hvalid : node.Valid) (hvalid' : node'.Valid)

include h hvalid hvalid'

theorem subject_eq {subject subject' : core.RequirementSubject}
    (hsubject : IsSubject core node subject) (hsubject' : IsSubject core node' subject') :
    subject = subject' := by
  have hkind : node.kind = .mapping := by
    cases hsubject with
    | package _ hkeys _ _ _ => exact hkeys.1
    | profile _ hkeys _ _ _ => exact hkeys.1
  exact readable_subject.eq_of_planned (IsSubject core) (interpretSubject core)
    (fun _ _ => isSubject_planned) h hvalid hvalid' hkind hsubject hsubject'

theorem program_eq {program program' : core.Program} (hprogram : IsProgram core node program)
    (hprogram' : IsProgram core node' program') : program = program' :=
  readable_program.eq_of_planned (IsProgram core) (interpretProgram core)
    (fun _ _ => isProgram_planned) h hvalid hvalid' hprogram.keys.1 hprogram hprogram'

theorem sources_eq {sources sources' : List core.SourceInput}
    (hsources : IsSources core node sources) (hsources' : IsSources core node' sources') :
    sources = sources' := by
  refine readable_sources.eq_of_planned (IsSources core) (List.mapM (interpretSource core))
    (fun _ _ => ?_) h hvalid hvalid' hsources.1 hsources hsources'
  simp only [mapM_eq_ok_iff]
  exact isSources_planned

theorem release_eq {release release' : core.PackageRelease} (hkind : node.kind = .mapping)
    (hrelease : IsRelease core node release) (hrelease' : IsRelease core node' release') :
    release = release' :=
  readable_release.eq_of_planned (IsRelease core) (interpretRelease core)
    (fun _ _ => isRelease_planned) h hvalid hvalid' hkind hrelease hrelease'

theorem metadata_eq {metadata metadata' : core.PackageMetadata} (hkind : node.kind = .mapping)
    (hmetadata : IsMetadata core node metadata) (hmetadata' : IsMetadata core node' metadata') :
    metadata = metadata' :=
  readable_metadata.eq_of_planned (IsMetadata core) (interpretMetadata core)
    (fun _ _ => isMetadata_planned) h hvalid hvalid' hkind hmetadata hmetadata'

end

/-! ### Sequences that may be absent -/

theorem childrenUnder_filled (found : Option Node) :
    childrenUnder (found.filter fun value => !value.children.isEmpty) = childrenUnder found := by
  cases found with
  | none => rfl
  | some child =>
      by_cases hempty : child.children = []
      · rw [Option.filter_some_neg (by simp [hempty])]
        exact hempty.symm
      · rw [Option.filter_some_pos (by simp [hempty])]

/-- Sequences of the same content have the same items, also when one is empty and the other absent.
-/
theorem forall₂_of_filled {found found' : Option Node} (h : SequenceUnder found)
    (hrel : Option.Rel Node.SameContent (found.filter fun value => !value.children.isEmpty)
      (found'.filter fun value => !value.children.isEmpty)) :
    List.Forall₂ Node.SameContent (childrenUnder found) (childrenUnder found') := by
  rw [← childrenUnder_filled found, ← childrenUnder_filled found']
  generalize hleft : found.filter (fun value => !value.children.isEmpty) = left at hrel ⊢
  generalize found'.filter (fun value => !value.children.isEmpty) = right at hrel ⊢
  cases hrel with
  | none => exact List.Forall₂.nil
  | @some child child' hsame =>
      obtain ⟨hfound, -⟩ := Option.filter_eq_some_iff.mp hleft
      exact hsame.items (h child hfound).2

/-! ### Architectures -/

theorem references_eq {found found' : Option Node}
    {references references' : List core.ArchitectureReference}
    (h : List.Forall₂ Node.SameContent (childrenUnder found) (childrenUnder found'))
    (hlist : IsOptional (IsArchitectureList core) [] found references)
    (hlist' : IsOptional (IsArchitectureList core) [] found' references') :
    references = references' := by
  have hnamed : List.Forall₂ (fun reference child' =>
      core.architectureReference child'.scalar = .ok reference) references
      (childrenUnder found') := by
    refine forall₂_trans ?_ (List.Forall₂.flip (childrenUnder_architectures hlist)) h
    intro reference child child' hchild hsame
    obtain ⟨name, hname, haccepted⟩ := hchild
    rwa [hsame.scalar, hname.2]
  rw [← List.forall₂_eq_eq_eq]
  refine forall₂_trans ?_ hnamed (childrenUnder_architectures hlist')
  intro reference child' reference' haccepted hchild'
  obtain ⟨name, hname, haccepted'⟩ := hchild'
  rw [hname.2, haccepted'] at haccepted
  exact (Except.ok.inj haccepted).symm

theorem architectures_eq {root root' : Node} (hformed : root.Formed)
    {architectures architectures' : core.ArchitectureRequirements}
    (hsame : SameArchitectures (root.field? (ascii "architectures"))
      (root'.field? (ascii "architectures")))
    (h : IsRecipeArchitectures core root architectures)
    (h' : IsRecipeArchitectures core root' architectures') : architectures = architectures' := by
  obtain ⟨build, target, haccepted, hbuild, htarget, -⟩ := lists_of_architectures h
  obtain ⟨build', target', haccepted', hbuild', htarget', -⟩ := lists_of_architectures h'
  have hchild : ∀ key child,
      (root.field? (ascii "architectures")).bind (·.field? key) = some child → child.Formed := by
    intro key child hchild
    obtain ⟨node, hnode, hfield⟩ := Option.bind_eq_some_iff.mp hchild
    exact (hformed.field hnode).field hfield
  have hfilled : ∀ (found : Option Node) (key : Bytes), found.bind (·.filled? key) =
      (found.bind (·.field? key)).filter fun value => !value.children.isEmpty := by
    intro found key
    cases found <;> rfl
  have hbuilds := hsame (ascii "build")
  have htargets := hsame (ascii "target")
  rw [hfilled, hfilled] at hbuilds htargets
  obtain rfl := references_eq
    (forall₂_of_filled (sequenceUnder_architectures (hchild _) hbuild) hbuilds) hbuild hbuild'
  obtain rfl := references_eq
    (forall₂_of_filled (sequenceUnder_architectures (hchild _) htarget) htargets) htarget htarget'
  exact Except.ok.inj (haccepted.symm.trans haccepted')

/-! ### Lifecycle programs -/

theorem lifecycle_eq {found found' : Option Node} {programs programs' : List core.LifecycleProgram}
    (hfound : MappingUnder found) (hfound' : MappingUnder found')
    (hsame : SamePairs (pairsUnder found) (pairsUnder found'))
    (h : IsOptional (IsLifecycle core) [] found programs)
    (h' : IsOptional (IsLifecycle core) [] found' programs') : programs = programs' := by
  have hvalues : List.Forall₂ (fun pair pair' => (pair.1.SameContent pair'.1 ∧
      pair.2.SameContent pair'.2) ∧ pair.2.Valid ∧ pair'.2.Valid) (pairsUnder found)
      (pairsUnder found') := by
    refine forall₂_imp_mem (fun pair hpair pair' hpair' hpairs => ⟨hpairs, ?_⟩) hsame
    exact ⟨(formed_of_mem_pairsUnder hfound hpair).2.valid,
      (formed_of_mem_pairsUnder hfound' hpair').2.valid⟩
  have hprograms : List.Forall₂ (fun lifecycleProgram pair' => ∃ (action : LifecycleAction)
      (program : core.Program), pair'.1.scalar = action.name ∧
      (∀ program', IsProgram core pair'.2 program' → program = program') ∧
      core.lifecycleProgram action program = .ok lifecycleProgram) programs
      (pairsUnder found') := by
    refine forall₂_trans ?_ (List.Forall₂.flip (pairsUnder_lifecycle h)) hvalues
    intro lifecycleProgram pair pair' hread hpairs
    obtain ⟨action, program, hname, hprogram, haccepted⟩ := hread
    obtain ⟨⟨hkey, hvalue⟩, hvalid, hvalid'⟩ := hpairs
    exact ⟨action, program, hkey.scalar.trans hname,
      fun _ => program_eq hvalue hvalid hvalid' hprogram, haccepted⟩
  rw [← List.forall₂_eq_eq_eq]
  refine forall₂_trans ?_ hprograms (pairsUnder_lifecycle h')
  intro lifecycleProgram pair' lifecycleProgram' hread hread'
  obtain ⟨action, program, hname, hprogram, haccepted⟩ := hread
  obtain ⟨action', program', hname', hprogram', haccepted'⟩ := hread'
  obtain rfl := name_injective (hname.symm.trans hname')
  obtain rfl := hprogram program' hprogram'
  exact Except.ok.inj (haccepted.symm.trans haccepted')

/-! ### Requirements -/

/-- Entries at one position whose nodes have the same content. -/
def SamePlaced (entry entry' : RequirementEntry) : Prop :=
  entry.position = entry'.position ∧ entry.node.SameContent entry'.node

theorem samePlaced_scopeEntries (name : ScopeName) {sequence sequence' : Node}
    (h : List.Forall₂ Node.SameContent sequence.children sequence'.children) :
    List.Forall₂ SamePlaced (scopeEntries name sequence) (scopeEntries name sequence') := by
  rw [scopeEntries, scopeEntries, List.forall₂_map_left_iff, List.forall₂_map_right_iff]
  refine (forall₂_zipIdx h 0).imp fun item item' hitem => ⟨?_, hitem.1⟩
  exact Prod.ext rfl hitem.2

theorem samePlaced_optionalEntries (name : ScopeName) {found found' : Option Node}
    (h : List.Forall₂ Node.SameContent (childrenUnder found) (childrenUnder found')) :
    List.Forall₂ SamePlaced (optionalEntries name found) (optionalEntries name found') := by
  have hentries : ∀ found : Option Node, optionalEntries name found =
      scopeEntries name ⟨.sequence, ⟨1, 1⟩, [], childrenUnder found⟩ := by
    intro found
    cases found <;> rfl
  rw [hentries, hentries]
  exact samePlaced_scopeEntries name h

/-- The entries of an action without requirements are none. -/
theorem lifecycleEntries_eq (found : Option Node) :
    lifecycleEntries found = (filledPairsUnder found).flatMap actionEntries := by
  have hpairs : ∀ pairs : List (Node × Node), pairs.flatMap actionEntries =
      (pairs.filter fun pair => !pair.2.children.isEmpty).flatMap actionEntries := by
    intro pairs
    induction pairs with
    | nil => rfl
    | cons pair rest ih =>
        by_cases hempty : pair.2.children = []
        · have hnone : actionEntries pair = [] := by
            unfold actionEntries scopeEntries
            cases LifecycleAction.named? pair.1.scalar <;> simp [hempty]
          rw [List.filter_cons_of_neg (by simp [hempty]), List.flatMap_cons, hnone, ih,
            List.nil_append]
        · rw [List.filter_cons_of_pos (by simp [hempty]), List.flatMap_cons, List.flatMap_cons, ih]
  cases found with
  | none => rfl
  | some node => exact hpairs node.pairs

theorem samePlaced_lifecycleEntries {found found' : Option Node} (h : GroupsUnder found)
    (hsame : SamePairs (filledPairsUnder found) (filledPairsUnder found')) :
    List.Forall₂ SamePlaced (lifecycleEntries found) (lifecycleEntries found') := by
  rw [lifecycleEntries_eq, lifecycleEntries_eq, List.flatMap_def, List.flatMap_def]
  refine List.rel_flatten ?_
  rw [List.forall₂_map_left_iff, List.forall₂_map_right_iff]
  refine forall₂_imp_mem (fun pair hpair pair' _ hpairs => ?_) hsame
  have hkind := h.sequences pair (List.mem_filter.mp hpair).1
  rw [actionEntries, actionEntries, hpairs.1.scalar]
  cases LifecycleAction.named? pair.1.scalar with
  | none => exact List.Forall₂.nil
  | some action => exact samePlaced_scopeEntries (.lifecycle action) (hpairs.2.items hkind)

theorem samePlaced_requirementEntries (hparts : RequirementParts node)
    (h : SameRequirements node node') :
    List.Forall₂ SamePlaced node.requirementEntries node'.requirementEntries := by
  rw [requirementEntries_eq, requirementEntries_eq]
  refine List.rel_append ?_ (List.rel_append ?_ (List.rel_append ?_ ?_))
  · exact samePlaced_optionalEntries .build
      (forall₂_of_filled hparts.build (h.scopes (ascii "build") (by decide)))
  · exact samePlaced_optionalEntries .run
      (forall₂_of_filled hparts.run (h.scopes (ascii "run") (by decide)))
  · exact samePlaced_optionalEntries .check
      (forall₂_of_filled hparts.check (h.scopes (ascii "check") (by decide)))
  · exact samePlaced_lifecycleEntries hparts.lifecycle h.lifecycle

/-- Entries at the same positions make the same requirements, each at a site of its path. -/
theorem upTo_of_samePlaced {entries entries' : List RequirementEntry}
    {declarations declarations' : List core.RequirementDeclaration}
    (hvalid : ∀ entry ∈ entries, entry.node.Valid) (hvalid' : ∀ entry ∈ entries', entry.node.Valid)
    (hsame : List.Forall₂ SamePlaced entries entries')
    (h : List.Forall₂ (RequirementEntry.Declares core context.origin) entries declarations)
    (h' : List.Forall₂ (RequirementEntry.Declares core context'.origin) entries' declarations') :
    List.Forall₂ (RequirementUpTo core (SiteRelocated core)) declarations declarations' := by
  have hentries : List.Forall₂ (fun entry entry' => SamePlaced entry entry' ∧ entry.node.Valid ∧
      entry'.node.Valid) entries entries' :=
    forall₂_imp_mem (fun entry hentry entry' hentry' hplaced =>
      ⟨hplaced, hvalid entry hentry, hvalid' entry' hentry'⟩) hsame
  have hdeclared : List.Forall₂ (fun declaration entry' => ∃ entry : RequirementEntry,
      (SamePlaced entry entry' ∧ entry.node.Valid ∧ entry'.node.Valid) ∧
      entry.Declares core context.origin declaration) declarations entries' :=
    forall₂_trans (fun _ entry _ hdeclares hplaced => ⟨entry, hplaced, hdeclares⟩)
      (List.Forall₂.flip h) hentries
  refine forall₂_trans ?_ hdeclared h'
  intro declaration entry' declaration' hleft hright
  obtain ⟨entry, ⟨⟨hposition, hnode⟩, hentry, hentry'⟩, hdeclares⟩ := hleft
  obtain ⟨scope, subject, site, hscope, hsubject, hsite, hdeclaration⟩ := hdeclares
  obtain ⟨scope', subject', site', hscope', hsubject', hsite', hdeclaration'⟩ := hright
  obtain ⟨hname, hindex⟩ := Prod.mk.inj hposition
  rw [← hname] at hscope'
  obtain rfl := Except.ok.inj (hscope.symm.trans hscope')
  obtain rfl := subject_eq hnode hentry hentry' hsubject hsubject'
  refine ⟨scope, subject, site, site', ?_, hdeclaration, hdeclaration'⟩
  rw [RequirementEntry.place, ← hname, ← hindex] at hsite'
  exact ⟨_, _, _, _, _, _, _, hsite, hsite'⟩

/-! ### Recipes -/

section

variable {root root' : Node} {fields fields' : RecipeFields core}
  {declaration declaration' : core.RecipeDeclaration}

theorem sameContent_of_rel {key : Bytes} {child child' : Node}
    (hrel : Option.Rel Node.SameContent (root.field? key) (root'.field? key))
    (hfield : root.field? key = some child) (hfield' : root'.field? key = some child') :
    child.SameContent child' := by
  rw [hfield, hfield'] at hrel
  cases hrel with
  | some h => exact h

theorem check_eq {found found' : Option Node} {check check' : Option core.Program}
    (hvalid : ∀ child, found = some child → child.Valid)
    (hvalid' : ∀ child, found' = some child → child.Valid)
    (hrel : Option.Rel Node.SameContent found found')
    (h : IsOptional (fun node check => ∃ program, IsProgram core node program ∧
      check = some program) none found check)
    (h' : IsOptional (fun node check => ∃ program, IsProgram core node program ∧
      check = some program) none found' check') : check = check' := by
  cases hrel with
  | none => exact h.trans h'.symm
  | some hsame =>
      obtain ⟨program, hprogram, rfl⟩ := h
      obtain ⟨program', hprogram', rfl⟩ := h'
      rw [program_eq hsame (hvalid _ rfl) (hvalid' _ rfl) hprogram hprogram']

theorem siteRelocated_of_provenance {path : Bytes} {site site' : core.DeclarationProvenance}
    (h : provenance core context path node = .ok site)
    (h' : provenance core context' path node' = .ok site') : SiteRelocated core site site' :=
  ⟨_, _, _, _, _, _, _, h, h'⟩

/-- The same document is read to the same recipe, at sites of the same paths. -/
theorem recipeUpTo_of_sameDocument (h : root.Formed) (h' : root'.Formed)
    (hrecipe : IsRecipe core context root fields) (hrecipe' : IsRecipe core context' root' fields')
    (hdeclares : fields.declare core = .ok declaration)
    (hdeclares' : fields'.declare core = .ok declaration')
    (hsame : SameDocument SameArchitectures root root') :
    RecipeUpTo core (SiteRelocated core) declaration declaration' := by
  have hfieldValid : ∀ {key : Bytes} {child : Node}, root.field? key = some child → child.Valid :=
    h.valid.field
  have hfieldValid' : ∀ {key : Bytes} {child : Node}, root'.field? key = some child →
      child.Valid := h'.valid.field
  obtain ⟨package, hpackage, hkind, hrelease, hmetadata⟩ := hrecipe.package
  obtain ⟨package', hpackage', -, hrelease', hmetadata'⟩ := hrecipe'.package
  obtain ⟨requirements, hrequirements, hgroups⟩ := hrecipe.requirements
  obtain ⟨requirements', hrequirements', hgroups'⟩ := hrecipe'.requirements
  obtain ⟨sources, hsources, hlist⟩ := hrecipe.sources
  obtain ⟨sources', hsources', hlist'⟩ := hrecipe'.sources
  obtain ⟨build, hbuild, hprogram⟩ := hrecipe.build
  obtain ⟨build', hbuild', hprogram'⟩ := hrecipe'.build
  have hsection : ∀ key, key ∉ [ascii "requirements", ascii "lifecycle", ascii "architectures"] →
      ∀ child child', root.field? key = some child → root'.field? key = some child' →
      child.SameContent child' :=
    fun key hkey _ _ => sameContent_of_rel (hsame.sections key hkey)
  have hpackages := hsection _ (by decide) _ _ hpackage hpackage'
  have hreleases := release_eq hpackages (hfieldValid hpackage) (hfieldValid' hpackage') hkind
    hrelease hrelease'
  have hmetadatas := metadata_eq hpackages (hfieldValid hpackage) (hfieldValid' hpackage') hkind
    hmetadata hmetadata'
  have hsourced := sources_eq (hsection _ (by decide) _ _ hsources hsources') (hfieldValid hsources)
    (hfieldValid' hsources') hlist hlist'
  have hbuilt := program_eq (hsection _ (by decide) _ _ hbuild hbuild') (hfieldValid hbuild)
    (hfieldValid' hbuild') hprogram hprogram'
  have hchecked := check_eq (fun _ => hfieldValid) (fun _ => hfieldValid')
    (hsame.sections (ascii "check") (by decide)) hrecipe.check hrecipe'.check
  have hcycled := lifecycle_eq (mappingUnder_lifecycle h hrecipe.lifecycle)
    (mappingUnder_lifecycle h' hrecipe'.lifecycle) hsame.lifecycle hrecipe.lifecycle
    hrecipe'.lifecycle
  have hrestricted := architectures_eq h hsame.architectures hrecipe.architectures
    hrecipe'.architectures
  have hformed := h.field hrequirements
  have hformed' := h'.field hrequirements'
  have hscopes : SameRequirements requirements requirements' := by
    have hrel := hsame.requirements
    rw [hrequirements, hrequirements'] at hrel
    cases hrel with
    | some hscopes => exact hscopes
  have hrequired := upTo_of_samePlaced (fun entry hentry => (hformed.entries entry hentry).valid)
    (fun entry hentry => (hformed'.entries entry hentry).valid)
    (samePlaced_requirementEntries (hgroups.parts hformed) hscopes)
    (declares_requirementEntries hgroups) (declares_requirementEntries hgroups')
  refine ⟨fields.release, fields.metadata, fields.sources, fields.build,
    fields.requirements.flatten core, fields'.requirements.flatten core, fields.lifecycle,
    fields.architectures, fields.provenance, fields'.provenance, fields.check, hrequired,
    siteRelocated_of_provenance hrecipe.provenance hrecipe'.provenance, hdeclares, ?_⟩
  rw [hreleases, hmetadatas, hsourced, hbuilt, hchecked, hcycled, hrestricted]
  exact hdeclares'

end

theorem RecipeUpTo.mono {core : Core}
    {Site Site' : core.DeclarationProvenance → core.DeclarationProvenance → Prop}
    {plan plan' : core.RecipeDeclaration}
    (hsites : ∀ site site', Site site site' → Site' site site')
    (h : RecipeUpTo core Site plan plan') : RecipeUpTo core Site' plan plan' := by
  obtain ⟨release, metadata, sources, build, requirements, requirements', lifecycle, architectures,
    site, site', check, hrequirements, hsite, hplan, hplan'⟩ := h
  refine ⟨release, metadata, sources, build, requirements, requirements', lifecycle, architectures,
    site, site', check, hrequirements.imp ?_, hsites _ _ hsite, hplan, hplan'⟩
  rintro _ _ ⟨scope, subject, site, site', hsite, hplans⟩
  exact ⟨scope, subject, site, site', hsites _ _ hsite, hplans⟩

/-- **A declaration keeps exactly the document.** Whatever `libpkgsource` is, the same document
makes the same recipe, at sites of the same paths; and with a faithful one, recipes that differ in
nothing but their sites come from the same document and from no other. -/
theorem recipe_keeps_document (core : Core) (context context' : Context)
    (order order' : EvaluationOrder) (input input' : Input) (limits limits' : ParseLimits)
    (root root' : Node) (declaration declaration' : core.RecipeDeclaration)
    (hroot : documentOutcome input context.origin limits = .ok root)
    (hroot' : documentOutcome input' context'.origin limits' = .ok root')
    (hdeclaration : recipeValue core context order root = .ok declaration)
    (hdeclaration' : recipeValue core context' order' root' = .ok declaration') :
    (SameDocument SameArchitectures root root' →
      RecipeUpTo core (SiteRelocated core) declaration declaration') ∧
    (Faithful core → (SameDocument SameArchitectures root root' ↔
      RecipeUpTo core (fun _ _ => True) declaration declaration')) := by
  have hformed := formed_of_documentOutcome hroot
  have hformed' := formed_of_documentOutcome hroot'
  obtain ⟨fields, hrecipe, hdeclares⟩ := (recipeValue_eq_ok_iff hformed.valid).mp hdeclaration
  obtain ⟨fields', hrecipe', hdeclares'⟩ := (recipeValue_eq_ok_iff hformed'.valid).mp hdeclaration'
  have hkept : SameDocument SameArchitectures root root' →
      RecipeUpTo core (SiteRelocated core) declaration declaration' :=
    recipeUpTo_of_sameDocument hformed hformed' hrecipe hrecipe' hdeclares hdeclares'
  refine ⟨hkept, fun hcore => ⟨fun hsame => (hkept hsame).mono fun _ _ _ => trivial, ?_⟩⟩
  intro hupTo
  exact hcore.sameDocument hformed hformed' hrecipe hrecipe'
    (hcore.sameFields hdeclares hdeclares' hupTo)

/-- A restriction of the target alone is the same with an empty restriction of the build. -/
theorem recipe_keeps_document_restricted : SameDocument SameArchitectures
    (restrictedRecipe targetOnly).toNode (restrictedRecipe targetAndEmptyBuild).toNode := by
  have hkept := recipe_keeps_document Core.recording ⟨⟨ascii "recipe.yaml"⟩, false⟩
    ⟨⟨ascii "recipe.yaml"⟩, false⟩ .textual .textual (.spelling 300 (restrictedRecipe targetOnly))
    (.spelling 310 (restrictedRecipe targetAndEmptyBuild)) {} {} _ _ restrictedDeclaration
    restrictedDeclaration rfl rfl rfl rfl
  refine (hkept.2 faithful_recording).mpr ?_
  exact ⟨_, _, _, _, [], [], _, _, _, _, _, List.Forall₂.nil, trivial, rfl, rfl⟩

/-! ### Profiles -/

theorem ProfileUpTo.mono
    {Site Site' : core.DeclarationProvenance → core.DeclarationProvenance → Prop}
    {declaration declaration' : core.ProfileDeclaration}
    (hsites : ∀ site site', Site site site' → Site' site site')
    (h : ProfileUpTo core Site declaration declaration') :
    ProfileUpTo core Site' declaration declaration' := by
  obtain ⟨reference, site, site', members, members', hsite, hmembers, hdeclared⟩ := h
  refine ⟨reference, site, site', members, members', hsites _ _ hsite, hmembers.imp ?_, hdeclared⟩
  intro _ _ hmember
  obtain ⟨subject, site, site', hsite, hdeclared⟩ := hmember
  exact ⟨subject, site, site', hsites _ _ hsite, hdeclared⟩

theorem faithfulProfiles_recording : FaithfulProfiles Core.recording where
  toFaithful := faithful_recording
  member _ _ _ _ _ h h' := (Prod.mk.inj (Except.ok.inj (h.trans h'.symm))).1
  profile _ _ _ _ _ _ _ h h' := by
    obtain ⟨hreference, hrest⟩ := Prod.mk.inj (Except.ok.inj (h.trans h'.symm))
    exact ⟨hreference, (Prod.mk.inj hrest).2⟩

section

variable {root root' : Node} {key key' : Bytes}
  {Site : core.DeclarationProvenance → core.DeclarationProvenance → Prop}
  {members members' : List core.ProfileMemberDeclaration}
  {declarations declarations' : List core.ProfileDeclaration}

/-- Members tell the subjects of their profile. -/
theorem FaithfulProfiles.sameMembers (hcore : FaithfulProfiles core) (h : node.Formed)
    (h' : node'.Formed) (hmembers : IsMembers core context key node members)
    (hmembers' : IsMembers core context' key' node' members')
    (hsame : List.Forall₂ (MemberUpTo core Site) members members') : node.SameContent node' := by
  obtain ⟨hkeys, list, hfield, hitems⟩ := hmembers
  obtain ⟨hkeys', list', hfield', hitems'⟩ := hmembers'
  have hsubjects : List.Forall₂ (fun child member' => ∃ subject site,
      IsSubject core child subject ∧ core.profileMemberDeclaration subject site = .ok member')
      list.children members' := by
    refine forall₂_trans ?_ hitems.children hsame
    intro child member member' hmember hmembers
    obtain ⟨_, subject, _, hsubject, -, hdeclared⟩ := hmember
    obtain ⟨subject', _, site, -, hleft, hright⟩ := hmembers
    obtain rfl := hcore.member _ _ _ _ _ hdeclared hleft
    exact ⟨subject, site, hsubject, hright⟩
  have hchildren : List.Forall₂ (fun child child' => ∃ subject, IsSubject core child subject ∧
      IsSubject core child' subject) list.children list'.children := by
    refine forall₂_trans ?_ hsubjects (List.Forall₂.flip hitems'.children)
    intro child member' child' hmember hmember'
    obtain ⟨subject, _, hsubject, hdeclared⟩ := hmember
    obtain ⟨_, subject', _, hsubject', -, hdeclared'⟩ := hmember'
    obtain rfl := hcore.member _ _ _ _ _ hdeclared hdeclared'
    exact ⟨subject, hsubject, hsubject'⟩
  have hlist := h.field hfield
  have hlist' := h'.field hfield'
  refine sameContent_of_keys h h' hkeys hkeys' (List.forall_mem_singleton.mpr ?_)
  refine rel_some hfield hfield' (sameContent_of_items hlist hlist' hitems.1 hitems'.1 ?_)
  refine forall₂_imp_mem (fun child hchild child' hchild' hread => ?_) hchildren
  obtain ⟨subject, hsubject, hsubject'⟩ := hread
  exact hcore.sameSubject (hlist.child (by simp [hitems.1]) hchild)
    (hlist'.child (by simp [hitems'.1]) hchild') hsubject hsubject'

/-- Profiles that differ in nothing but their sites are read from the same document. -/
theorem FaithfulProfiles.sameProfiles (hcore : FaithfulProfiles core) (h : root.Formed)
    (h' : root'.Formed) (hprofiles : IsProfiles core context root declarations)
    (hprofiles' : IsProfiles core context' root' declarations')
    (hsame : List.Forall₂ (ProfileUpTo core Site) declarations declarations') :
    SameProfilesDocument root root' := by
  obtain ⟨node, hfield, hkind, hentries⟩ := hprofiles.profiles
  obtain ⟨node', hfield', hkind', hentries'⟩ := hprofiles'.profiles
  have hunder : ∀ {root node : Node}, root.Formed → root.field? (ascii "profiles") = some node →
      node.kind = .mapping → MappingUnder (some node) := by
    intro root node hroot hfield hkind child hchild
    obtain rfl := Option.some.inj hchild
    exact ⟨hroot.field hfield, hkind⟩
  constructor
  · intro key hkey
    by_cases hallowed : key ∈ [ascii "format", ascii "profiles"]
    · rw [List.mem_cons, List.mem_singleton] at hallowed
      obtain rfl := hallowed.resolve_right hkey
      exact rel_text h h' hprofiles.format hprofiles'.format
    · exact rel_none (hprofiles.keys.field?_eq_none hallowed)
        (hprofiles'.keys.field?_eq_none hallowed)
  · rw [hfield, hfield']
    refine samePairs_of_forall₂ (hunder h hfield hkind) (hunder h' hfield' hkind') (fun _ => id)
      (fun _ => id) ?_
    have hdeclared : List.Forall₂ (fun pair declaration' => ∃ reference site members members',
        core.profileReference (ascii "@" ++ pair.1.scalar) = .ok reference ∧
        IsMembers core context pair.1.scalar pair.2 members ∧
        List.Forall₂ (MemberUpTo core Site) members members' ∧
        core.profileDeclaration reference site members' = .ok declaration') node.pairs
        declarations' := by
      refine forall₂_trans ?_ hentries hsame
      intro pair declaration declaration' hpair hupTo
      obtain ⟨reference, _, members, hreference, -, hmembers, hdeclared⟩ := hpair
      obtain ⟨_, _, site', _, members', -, hupTo, hleft, hright⟩ := hupTo
      obtain ⟨rfl, rfl⟩ := hcore.profile _ _ _ _ _ _ _ hdeclared hleft
      exact ⟨reference, site', members, members', hreference, hmembers, hupTo, hright⟩
    refine forall₂_trans ?_ hdeclared (List.Forall₂.flip hentries')
    intro pair declaration' pair' hpair hpair'
    obtain ⟨reference, site, members, members', hreference, hmembers, hupTo, hleft⟩ := hpair
    obtain ⟨reference', _, _, hreference', -, hmembers', hright⟩ := hpair'
    obtain ⟨rfl, rfl⟩ := hcore.profile _ _ _ _ _ _ _ hleft hright
    refine ⟨List.append_cancel_left (hcore.profileReference _ _ _ hreference hreference'), ?_⟩
    exact fun hformed hformed' => hcore.sameMembers hformed hformed' hmembers hmembers' hupTo

/-- Mappings of the same content have the same content under every key. -/
theorem Node.SameContent.field {child : Node} (h : node.SameContent node') (hvalid : node.Valid)
    (hvalid' : node'.Valid) (hkind : node.kind = .mapping) (hfield : node.field? key = some child) :
    ∃ child', node'.field? key = some child' ∧ child.SameContent child' := by
  obtain ⟨middle, htwin, hmatched⟩ := h.exists_middle hvalid hvalid'
  obtain ⟨found, hfound, hpermuted⟩ := htwin.field hkind hfield
  have hrel := hmatched.field (htwin.kind.trans hkind) key
  rw [hfound] at hrel
  cases hfield' : node'.field? key with
  | none =>
      rw [hfield'] at hrel
      cases hrel
  | some child' =>
      rw [hfield'] at hrel
      cases hrel with
      | some halike => exact ⟨child', rfl, found, hpermuted.permuted, halike.alike⟩

theorem members_upTo (h : node.SameContent node') (hvalid : node.Valid) (hvalid' : node'.Valid)
    (hmembers : IsMembers core context key node members)
    (hmembers' : IsMembers core context' key node' members') :
    List.Forall₂ (MemberUpTo core (SiteRelocated core)) members members' := by
  obtain ⟨hkeys, list, hfield, hitems⟩ := hmembers
  obtain ⟨-, list', hfield', hitems'⟩ := hmembers'
  obtain ⟨_, hfound, hsame⟩ := h.field hvalid hvalid' hkeys.1 hfield
  obtain rfl := Option.some.inj (hfield'.symm.trans hfound)
  have hlist := hvalid.field hfield
  have hlist' := hvalid'.field hfield'
  have hchildren : List.Forall₂ (fun child child' => child.SameContent child' ∧ child.Valid ∧
      child'.Valid) list.children list'.children :=
    forall₂_imp_mem (fun _ hchild _ hchild' hsame =>
      ⟨hsame, hlist.item hitems.1 hchild, hlist'.item hitems'.1 hchild'⟩) (hsame.items hitems.1)
  have hread : List.Forall₂ (fun member (entry' : Node × Nat) => ∃ entry : Node × Nat,
      IsMember core context (memberPath key entry.2) entry.1 member ∧
      (entry.1.SameContent entry'.1 ∧ entry.1.Valid ∧ entry'.1.Valid) ∧ entry.2 = entry'.2) members
      list'.children.zipIdx :=
    forall₂_trans (fun _ entry _ hmember hentries => ⟨entry, hmember, hentries⟩)
      (List.Forall₂.flip hitems.2) (forall₂_zipIdx hchildren 0)
  refine forall₂_trans ?_ hread hitems'.2
  intro member entry' member' hleft hright
  obtain ⟨entry, ⟨subject, site, hsubject, hsite, hdeclared⟩, ⟨hnode, hentry, hentry'⟩, hindex⟩ :=
    hleft
  obtain ⟨subject', site', hsubject', hsite', hdeclared'⟩ := hright
  rw [hindex] at hsite
  obtain rfl := subject_eq hnode hentry hentry' hsubject hsubject'
  exact ⟨subject, site, site', siteRelocated_of_provenance hsite hsite', hdeclared, hdeclared'⟩

/-- The same document is read to the same profiles, at sites of the same paths. -/
theorem profilesUpTo_of_same (h : root.Formed) (h' : root'.Formed)
    (hprofiles : IsProfiles core context root declarations)
    (hprofiles' : IsProfiles core context' root' declarations')
    (hsame : SameProfilesDocument root root') :
    List.Forall₂ (ProfileUpTo core (SiteRelocated core)) declarations declarations' := by
  obtain ⟨node, hfield, hkind, hentries⟩ := hprofiles.profiles
  obtain ⟨node', hfield', hkind', hentries'⟩ := hprofiles'.profiles
  have hpairs := hsame.profiles
  rw [hfield, hfield'] at hpairs
  have hvalues : List.Forall₂ (fun pair pair' => (pair.1.SameContent pair'.1 ∧
      pair.2.SameContent pair'.2) ∧ pair.2.Valid ∧ pair'.2.Valid) node.pairs node'.pairs :=
    forall₂_imp_mem (fun _ hpair _ hpair' hpairs =>
      ⟨hpairs, (h.valid.field hfield).pair hkind hpair,
        (h'.valid.field hfield').pair hkind' hpair'⟩) hpairs
  have hread : List.Forall₂ (fun declaration (pair' : Node × Node) => ∃ pair : Node × Node,
      IsProfile core context pair.1 pair.2 declaration ∧ (pair.1.SameContent pair'.1 ∧
      pair.2.SameContent pair'.2) ∧ pair.2.Valid ∧ pair'.2.Valid) declarations node'.pairs :=
    forall₂_trans (fun _ pair _ hprofile hpairs => ⟨pair, hprofile, hpairs⟩)
      (List.Forall₂.flip hentries) hvalues
  refine forall₂_trans ?_ hread hentries'
  intro declaration pair' declaration' hleft hright
  obtain ⟨pair, ⟨reference, site, members, hreference, hsite, hmembers, hdeclared⟩,
    ⟨hkey, hvalue⟩, hvalid, hvalid'⟩ := hleft
  obtain ⟨reference', site', members', hreference', hsite', hmembers', hdeclared'⟩ := hright
  rw [hkey.scalar] at hreference' hsite' hmembers'
  obtain rfl := Except.ok.inj (hreference.symm.trans hreference')
  exact ⟨reference, site, site', members, members', siteRelocated_of_provenance hsite hsite',
    members_upTo hvalue hvalid hvalid' hmembers hmembers', hdeclared, hdeclared'⟩

end

/-- **The same of profiles.** The same document makes the same profiles, at sites of the same paths;
and with a faithful `libpkgsource`, profiles that differ in nothing but their sites come from the
same document and from no other. -/
theorem profiles_keep_document (core : Core) (context context' : Context) (input input' : Input)
    (limits limits' : ParseLimits) (root root' : Node)
    (declarations declarations' : List core.ProfileDeclaration)
    (hroot : documentOutcome input context.origin limits = .ok root)
    (hroot' : documentOutcome input' context'.origin limits' = .ok root')
    (hdeclarations : profilesValue core context root = .ok declarations)
    (hdeclarations' : profilesValue core context' root' = .ok declarations') :
    (SameProfilesDocument root root' →
      List.Forall₂ (ProfileUpTo core (SiteRelocated core)) declarations declarations') ∧
    (FaithfulProfiles core → (SameProfilesDocument root root' ↔
      List.Forall₂ (ProfileUpTo core fun _ _ => True) declarations declarations')) := by
  have hformed := formed_of_documentOutcome hroot
  have hformed' := formed_of_documentOutcome hroot'
  have hprofiles := (profilesValue_eq_ok_iff hformed.valid).mp hdeclarations
  have hprofiles' := (profilesValue_eq_ok_iff hformed'.valid).mp hdeclarations'
  have hkept : SameProfilesDocument root root' →
      List.Forall₂ (ProfileUpTo core (SiteRelocated core)) declarations declarations' :=
    profilesUpTo_of_same hformed hformed' hprofiles hprofiles'
  refine ⟨hkept, fun hcore => ⟨fun hsame => ?_, ?_⟩⟩
  · exact (hkept hsame).imp fun _ _ hdeclared => hdeclared.mono fun _ _ _ => trivial
  · exact hcore.sameProfiles hformed hformed' hprofiles hprofiles'

/-- Exchanging the two keys of a profiles document leaves it the same. -/
theorem profiles_keep_document_exchanged :
    SameProfilesDocument smallProfiles.toNode exchangedProfiles.toNode := by
  have hkept := profiles_keep_document Core.recording ⟨⟨ascii "profiles.yaml"⟩, false⟩
    ⟨⟨ascii "profiles.yaml"⟩, false⟩ (.spelling 120 smallProfiles) (.spelling 120 exchangedProfiles)
    {} {} _ _ _ _ rfl rfl rfl rfl
  refine (hkept.2 faithfulProfiles_recording).mpr ?_
  refine List.forall₂_same.mpr fun declaration _ => ?_
  refine ⟨declaration.1, declaration.2.1, declaration.2.1, declaration.2.2, declaration.2.2,
    trivial, List.forall₂_same.mpr fun member _ => ?_, rfl, rfl⟩
  exact ⟨member.1, member.2, member.2, trivial, rfl, rfl⟩

end PkgsourceYaml
