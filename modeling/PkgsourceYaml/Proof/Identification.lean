import PkgsourceYaml.Proof.Content
import PkgsourceYaml.Proof.Places

/-!
# A recipe declaration determines its document

Over a faithful `libpkgsource` every part of a declaration, apart from its provenances, is read back
to one content of the tree.
-/

namespace PkgsourceYaml

open Entrywise

variable {core : Core} {context context' : Context} {node node' : Node}

/-! ### Nested constructors -/

/-- Two constructors in a row keep their argument apart if each of them does. -/
theorem Injects.bind {α β γ : Type} {inner : α → Except CoreError β}
    {outer : β → Except CoreError γ} (hinner : Injects inner) (houter : Injects outer) :
    Injects fun a => inner a >>= outer := by
  intro a a' c h h'
  obtain ⟨b, hb, hc⟩ := Throwing.bind_eq_ok.mp h
  obtain ⟨b', hb', hc'⟩ := Throwing.bind_eq_ok.mp h'
  obtain rfl := houter b b' c hc hc'
  exact hinner a a' b hb hb'

theorem Faithful.packageSubjectOf (hcore : Faithful core) : Injects core.packageSubjectOf :=
  hcore.packageReference.bind hcore.packageSubject

theorem Faithful.profileSubjectOf (hcore : Faithful core) : Injects core.profileSubjectOf :=
  hcore.profileReference.bind hcore.profileSubject

theorem Faithful.subjectsOf (hcore : Faithful core) {name name' : Bytes}
    {subject : core.RequirementSubject} (h : core.packageSubjectOf name = .ok subject) :
    core.profileSubjectOf name' ≠ .ok subject := by
  intro h'
  obtain ⟨reference, -, hsubject⟩ := Throwing.bind_eq_ok.mp h
  obtain ⟨reference', -, hsubject'⟩ := Throwing.bind_eq_ok.mp h'
  exact hcore.subjects _ _ _ hsubject hsubject'

theorem Faithful.packageReleaseOf (hcore : Faithful core) {name name' version version' : Bytes}
    {number number' : UInt32} {release : core.PackageRelease}
    (h : core.packageReleaseOf name version number = .ok release)
    (h' : core.packageReleaseOf name' version' number' = .ok release) :
    name = name' ∧ version = version' ∧ number = number' := by
  obtain ⟨reference, hreference, hrelease⟩ := Throwing.bind_eq_ok.mp h
  obtain ⟨reference', hreference', hrelease'⟩ := Throwing.bind_eq_ok.mp h'
  obtain ⟨rfl, hrest⟩ := hcore.release _ _ _ _ _ _ _ hrelease hrelease'
  exact ⟨hcore.packageReference _ _ _ hreference hreference', hrest⟩

/-! ### Subjects, programs, sources -/

theorem Faithful.sameSubject (hcore : Faithful core) (h : node.Formed) (h' : node'.Formed)
    {subject : core.RequirementSubject} (hsubject : IsSubject core node subject)
    (hsubject' : IsSubject core node' subject) : node.SameContent node' := by
  cases hsubject with
  | package name hkeys hpackage hprofile haccepted =>
      cases hsubject' with
      | package name' hkeys' hpackage' hprofile' haccepted' =>
          obtain rfl := hcore.packageSubjectOf _ _ _ haccepted haccepted'
          apply sameContent_of_keys h h' hkeys hkeys'
          simp only [subjectKeys, List.forall_mem_cons]
          exact ⟨rel_text h h' hpackage hpackage', rel_none hprofile hprofile', by simp⟩
      | profile name' hkeys' hpackage' hprofile' haccepted' =>
          exact absurd haccepted' (hcore.subjectsOf haccepted)
  | profile name hkeys hpackage hprofile haccepted =>
      cases hsubject' with
      | package name' hkeys' hpackage' hprofile' haccepted' =>
          exact absurd haccepted (hcore.subjectsOf haccepted')
      | profile name' hkeys' hpackage' hprofile' haccepted' =>
          obtain rfl := hcore.profileSubjectOf _ _ _ haccepted haccepted'
          apply sameContent_of_keys h h' hkeys hkeys'
          simp only [subjectKeys, List.forall_mem_cons]
          exact ⟨rel_none hpackage hpackage', rel_text h h' hprofile hprofile', by simp⟩

theorem Faithful.sameProgram (hcore : Faithful core) (h : node.Formed) (h' : node'.Formed)
    {program : core.Program} (hprogram : IsProgram core node program)
    (hprogram' : IsProgram core node' program) : node.SameContent node' := by
  obtain ⟨hkeys, hlanguage, material, hmaterial, haccepted⟩ := hprogram
  obtain ⟨hkeys', hlanguage', material', hmaterial', haccepted'⟩ := hprogram'
  obtain rfl := hcore.program _ _ _ haccepted haccepted'
  apply sameContent_of_keys h h' hkeys hkeys'
  simp only [programKeys, List.forall_mem_cons]
  exact ⟨rel_text h h' hlanguage hlanguage', rel_text h h' hmaterial hmaterial', by simp⟩

/-- Two sources with one value have the same locator under the same key, and the same arguments. -/
theorem Faithful.sameLocated (hcore : Faithful core) (h : node.Formed) (h' : node'.Formed)
    {name name' : Bytes} {content content' : core.Digest} {unpack unpack' : SourceUnpackKind}
    {source : core.SourceInput} (hlocated : IsLocated core node name content unpack (.ok source))
    (hlocated' : IsLocated core node' name' content' unpack' (.ok source)) :
    (Option.Rel Node.SameContent (node.field? (ascii "url")) (node'.field? (ascii "url")) ∧
      Option.Rel Node.SameContent (node.field? (ascii "path")) (node'.field? (ascii "path"))) ∧
      name = name' ∧ content = content' ∧ unpack = unpack' := by
  cases hlocated with
  | url locator hurl hpath hcall =>
      cases hlocated' with
      | url locator' hurl' hpath' hcall' =>
          obtain ⟨rfl, hrest⟩ := hcore.remoteSource _ _ _ _ _ _ _ _ _ hcall hcall'
          exact ⟨⟨rel_text h h' hurl hurl', rel_none hpath hpath'⟩, hrest⟩
      | path locator' hurl' hpath' hcall' =>
          exact absurd hcall' (hcore.sources _ _ _ _ _ _ _ _ _ hcall)
  | path locator hurl hpath hcall =>
      cases hlocated' with
      | url locator' hurl' hpath' hcall' =>
          exact absurd hcall (hcore.sources _ _ _ _ _ _ _ _ _ hcall')
      | path locator' hurl' hpath' hcall' =>
          obtain ⟨rfl, hrest⟩ := hcore.localSource _ _ _ _ _ _ _ _ _ hcall hcall'
          exact ⟨⟨rel_none hurl hurl', rel_text h h' hpath hpath'⟩, hrest⟩

theorem rel_unpack (h : node.Formed) (h' : node'.Formed) {unpack : SourceUnpackKind}
    (hunpack : IsOptional IsUnpack .none (node.field? (ascii "unpack")) unpack)
    (hunpack' : IsOptional IsUnpack .none (node'.field? (ascii "unpack")) unpack) :
    Option.Rel Node.SameContent (node.field? (ascii "unpack")) (node'.field? (ascii "unpack")) := by
  have hpresent : ∀ child, IsUnpack child unpack → unpack ≠ .none := by
    intro child hchild
    simp [hchild.2]
  apply rel_optional hunpack hunpack' hpresent hpresent
  intro child child' hfield hfield' hchild hchild'
  exact sameContent_of_isText (h.field hfield) (h'.field hfield') hchild.1 hchild'.1

theorem Faithful.sameSource (hcore : Faithful core) (h : node.Formed) (h' : node'.Formed)
    {source : core.SourceInput} (hsource : IsSource core node source)
    (hsource' : IsSource core node' source) : node.SameContent node' := by
  obtain ⟨hkeys, name, hash, content, unpack, hname, hhash, hcontent, hunpack, hlocated⟩ := hsource
  obtain ⟨hkeys', name', hash', content', unpack', hname', hhash', hcontent', hunpack',
    hlocated'⟩ := hsource'
  obtain ⟨⟨hurl, hpath⟩, rfl, rfl, rfl⟩ := hcore.sameLocated h h' hlocated hlocated'
  obtain rfl := hcore.digest _ _ _ hcontent hcontent'
  apply sameContent_of_keys h h' hkeys hkeys'
  simp only [sourceKeys, List.forall_mem_cons]
  exact ⟨hurl, hpath, rel_text h h' hname hname', rel_unpack h h' hunpack hunpack',
    rel_text h h' hhash hhash', by simp⟩

theorem Faithful.sameSources (hcore : Faithful core) (h : node.Formed) (h' : node'.Formed)
    {sources : List core.SourceInput} (hsources : IsSources core node sources)
    (hsources' : IsSources core node' sources) : node.SameContent node' :=
  sameContent_of_isItems h h' hsources hsources' fun _ _ _ _ _ hentry hentry' hsource hsource' =>
    hcore.sameSource hentry hentry' hsource hsource'

/-! ### Packages -/

theorem rel_optionalText {key : Bytes} (h : node.Formed) (h' : node'.Formed) {text : Option Bytes}
    (htext : IsOptional IsOptionalText none (node.field? key) text)
    (htext' : IsOptional IsOptionalText none (node'.field? key) text) :
    Option.Rel Node.SameContent (node.field? key) (node'.field? key) := by
  have hpresent : ∀ child, IsOptionalText child text → text ≠ none := by
    intro child hchild
    obtain ⟨found, -, hfound⟩ := hchild
    simp [hfound]
  apply rel_optional htext htext' hpresent hpresent
  intro child child' hfield hfield' hchild hchild'
  obtain ⟨found, hfound, rfl⟩ := hchild
  obtain ⟨found', hfound', hsame⟩ := hchild'
  obtain rfl := Option.some.inj hsame
  exact sameContent_of_isText (h.field hfield) (h'.field hfield') hfound hfound'

theorem Faithful.samePackage (hcore : Faithful core) (h : node.Formed) (h' : node'.Formed)
    {release : core.PackageRelease} {metadata : core.PackageMetadata}
    (hrelease : IsRelease core node release) (hrelease' : IsRelease core node' release)
    (hmetadata : IsMetadata core node metadata) (hmetadata' : IsMetadata core node' metadata) :
    node.SameContent node' := by
  obtain ⟨name, version, number, hfields, haccepted⟩ := hrelease
  obtain ⟨name', version', number', hfields', haccepted'⟩ := hrelease'
  obtain ⟨summary, description, homepage, licenses, hdata, hcall⟩ := hmetadata
  obtain ⟨summary', description', homepage', licenses', hdata', hcall'⟩ := hmetadata'
  obtain ⟨rfl, rfl, rfl⟩ := hcore.packageReleaseOf haccepted haccepted'
  obtain ⟨rfl, rfl, rfl, rfl⟩ := hcore.metadata _ _ _ _ _ _ _ _ _ hcall hcall'
  obtain ⟨text, htext, hcanonical⟩ := hfields.release
  obtain ⟨text', htext', hcanonical'⟩ := hfields'.release
  -- the release text is the canonical decimal of the number, so it can be read back
  obtain rfl : text = text' := hcanonical.2.trans hcanonical'.2.symm
  obtain ⟨list, hlist, hitems⟩ := hdata.licenses
  obtain ⟨list', hlist', hitems'⟩ := hdata'.licenses
  have hlicenses : list.SameContent list' :=
    sameContent_of_isItems (h.field hlist) (h'.field hlist') hitems hitems'
      fun _ _ _ _ _ => sameContent_of_isText
  apply sameContent_of_keys h h' hfields.keys hfields'.keys
  simp only [packageKeys, List.forall_mem_cons]
  exact ⟨rel_text h h' hfields.name hfields'.name, rel_text h h' hfields.version hfields'.version,
    rel_text h h' htext htext', rel_text h h' hdata.summary hdata'.summary,
    rel_optionalText h h' hdata.description hdata'.description,
    rel_optionalText h h' hdata.homepage hdata'.homepage, rel_some hlist hlist' hlicenses, by simp⟩

/-! ### Sequences that may be absent -/

/-- The items of an optional sequence. -/
def childrenUnder (found : Option Node) : List Node := found.elim [] Node.children

@[simp] theorem childrenUnder_some (node : Node) : childrenUnder (some node) = node.children := rfl

/-- What is found under a key, if anything, is a sequence of a tree that was read. -/
def SequenceUnder (found : Option Node) : Prop :=
  ∀ child, found = some child → child.Formed ∧ child.kind = .sequence

theorem SequenceUnder.item {found : Option Node} {child : Node} (h : SequenceUnder found)
    (hchild : child ∈ childrenUnder found) : child.Formed := by
  cases found with
  | none => exact absurd hchild List.not_mem_nil
  | some list =>
      obtain ⟨hlist, hkind⟩ := h list rfl
      exact hlist.child (by simp [hkind]) hchild

/-- Optional sequences of the same items are the same, unless one is absent and the other empty. -/
theorem rel_filled {found found' : Option Node} (h : SequenceUnder found)
    (h' : SequenceUnder found')
    (hitems : List.Forall₂ Node.SameContent (childrenUnder found) (childrenUnder found')) :
    Option.Rel Node.SameContent (found.filter fun value => !value.children.isEmpty)
      (found'.filter fun value => !value.children.isEmpty) := by
  have hempty : ∀ found : Option Node, childrenUnder found = [] →
      found.filter (fun value => !value.children.isEmpty) = none := by
    intro found hnil
    cases found with
    | none => rfl
    | some child =>
        apply Option.filter_some_neg
        simpa using hnil
  by_cases hnil : childrenUnder found = []
  · have hnil' : childrenUnder found' = [] := by
      rwa [hnil, List.forall₂_nil_left_iff] at hitems
    rw [hempty found hnil, hempty found' hnil']
    exact Option.Rel.none
  · have hnil' : childrenUnder found' ≠ [] := by
      intro hnil'
      rw [hnil', List.forall₂_nil_right_iff] at hitems
      exact hnil hitems
    cases found with
    | none => exact absurd rfl hnil
    | some child =>
        cases found' with
        | none => exact absurd rfl hnil'
        | some child' =>
            obtain ⟨hformed, hkind⟩ := h child rfl
            obtain ⟨hformed', hkind'⟩ := h' child' rfl
            rw [Option.filter_some_pos (by simpa using hnil),
              Option.filter_some_pos (by simpa using hnil')]
            exact Option.Rel.some (sameContent_of_items hformed hformed' hkind hkind' hitems)

/-! ### Architectures -/

theorem childrenUnder_architectures {found : Option Node}
    {references : List core.ArchitectureReference}
    (h : IsOptional (IsArchitectureList core) [] found references) :
    List.Forall₂ (fun child reference => ∃ name, child.IsText name ∧
      core.architectureReference name = .ok reference) (childrenUnder found) references := by
  cases found with
  | none =>
      obtain rfl : references = [] := h
      exact List.Forall₂.nil
  | some list =>
      have hitems : IsArchitectureList core list references := h
      exact (IsItems.children hitems).imp fun _ _ hchild => hchild.elim fun _ hname => hname

theorem sequenceUnder_architectures {found : Option Node}
    {references : List core.ArchitectureReference}
    (hformed : ∀ child, found = some child → child.Formed)
    (h : IsOptional (IsArchitectureList core) [] found references) : SequenceUnder found := by
  intro child hfound
  rw [hfound] at h
  exact ⟨hformed child hfound, h.1⟩

theorem Faithful.rel_architectures (hcore : Faithful core) {found found' : Option Node}
    {references : List core.ArchitectureReference}
    (hformed : ∀ child, found = some child → child.Formed)
    (hformed' : ∀ child, found' = some child → child.Formed)
    (h : IsOptional (IsArchitectureList core) [] found references)
    (h' : IsOptional (IsArchitectureList core) [] found' references) :
    Option.Rel Node.SameContent (found.filter fun value => !value.children.isEmpty)
      (found'.filter fun value => !value.children.isEmpty) := by
  have hunder := sequenceUnder_architectures hformed h
  have hunder' := sequenceUnder_architectures hformed' h'
  apply rel_filled hunder hunder'
  have hrelated : List.Forall₂ (fun child child' => ∃ name, child.IsText name ∧
      child'.IsText name) (childrenUnder found) (childrenUnder found') := by
    refine forall₂_trans ?_ (childrenUnder_architectures h)
      (List.Forall₂.flip (childrenUnder_architectures h'))
    rintro child reference child' ⟨name, hname, haccepted⟩ ⟨name', hname', haccepted'⟩
    obtain rfl := hcore.architectureReference _ _ _ haccepted haccepted'
    exact ⟨name, hname, hname'⟩
  refine forall₂_imp_mem ?_ hrelated
  rintro child hchild child' hchild' ⟨name, hname, hname'⟩
  exact sameContent_of_isText (hunder.item hchild) (hunder'.item hchild') hname hname'

/-- What `libpkgsource` was asked for, read off a root with or without architectures. -/
theorem lists_of_architectures {root : Node} {architectures : core.ArchitectureRequirements}
    (h : IsRecipeArchitectures core root architectures) :
    ∃ build target, core.architectureRequirements build target = .ok architectures ∧
      IsOptional (IsArchitectureList core) []
        ((root.field? (ascii "architectures")).bind (·.field? (ascii "build"))) build ∧
      IsOptional (IsArchitectureList core) []
        ((root.field? (ascii "architectures")).bind (·.field? (ascii "target"))) target ∧
      ∀ key, key ∉ architectureKeys →
        (root.field? (ascii "architectures")).bind (·.field? key) = none := by
  unfold IsRecipeArchitectures at h
  cases hfield : root.field? (ascii "architectures") with
  | none =>
      rw [hfield] at h
      exact ⟨[], [], h, rfl, rfl, fun _ _ => rfl⟩
  | some node =>
      rw [hfield] at h
      obtain ⟨hkeys, build, target, hbuild, htarget, haccepted⟩ := h
      exact ⟨build, target, haccepted, hbuild, htarget, fun key hkey => hkeys.field?_eq_none hkey⟩

theorem Faithful.sameArchitectures (hcore : Faithful core) {root root' : Node} (h : root.Formed)
    (h' : root'.Formed) {architectures : core.ArchitectureRequirements}
    (harchitectures : IsRecipeArchitectures core root architectures)
    (harchitectures' : IsRecipeArchitectures core root' architectures) :
    SameArchitectures (root.field? (ascii "architectures"))
      (root'.field? (ascii "architectures")) := by
  obtain ⟨build, target, haccepted, hbuild, htarget, hother⟩ :=
    lists_of_architectures harchitectures
  obtain ⟨build', target', haccepted', hbuild', htarget', hother'⟩ :=
    lists_of_architectures harchitectures'
  obtain ⟨rfl, rfl⟩ := hcore.architectures _ _ _ _ _ haccepted haccepted'
  have hformed : ∀ {root : Node} {key : Bytes}, root.Formed → ∀ child,
      (root.field? (ascii "architectures")).bind (·.field? key) = some child → child.Formed := by
    intro root key hroot child hchild
    obtain ⟨node, hnode, hfield⟩ := Option.bind_eq_some_iff.mp hchild
    exact (hroot.field hnode).field hfield
  have hfilled : ∀ (found : Option Node) (key : Bytes), found.bind (·.filled? key) =
      (found.bind (·.field? key)).filter fun value => !value.children.isEmpty := by
    intro found key
    cases found <;> rfl
  intro key
  rw [hfilled, hfilled]
  by_cases hkey : key ∈ architectureKeys
  · rw [architectureKeys, List.mem_cons, List.mem_singleton] at hkey
    rcases hkey with rfl | rfl
    · exact hcore.rel_architectures (hformed h) (hformed h') hbuild hbuild'
    · exact hcore.rel_architectures (hformed h) (hformed h') htarget htarget'
  · rw [hother key hkey, hother' key hkey]
    exact Option.Rel.none

/-! ### Lifecycle programs -/

/-- What is found under a key, if anything, is a mapping of a tree that was read. -/
def MappingUnder (found : Option Node) : Prop :=
  ∀ child, found = some child → child.Formed ∧ child.kind = .mapping

theorem formed_of_mem_pairsUnder {found : Option Node} {pair : Node × Node}
    (h : MappingUnder found) (hpair : pair ∈ pairsUnder found) :
    (pair.1.Formed ∧ pair.1.IsText pair.1.scalar) ∧ pair.2.Formed := by
  cases found with
  | none => exact absurd hpair List.not_mem_nil
  | some node =>
      obtain ⟨hnode, hkind⟩ := h node rfl
      have hpair' := hnode.pair hkind hpair
      exact ⟨⟨hpair'.1, (hnode.valid.admitted hkind).scalar pair hpair, rfl⟩, hpair'.2⟩

/-- Pairs whose keys have one text and whose values have one content are the same. -/
theorem samePairs_of_forall₂ {found found' : Option Node} (h : MappingUnder found)
    (h' : MappingUnder found') {list list' : List (Node × Node)}
    (hlist : ∀ pair ∈ list, pair ∈ pairsUnder found)
    (hlist' : ∀ pair ∈ list', pair ∈ pairsUnder found')
    (hpairs : List.Forall₂ (fun pair pair' => pair.1.scalar = pair'.1.scalar ∧
      (pair.2.Formed → pair'.2.Formed → pair.2.SameContent pair'.2)) list list') :
    SamePairs list list' := by
  refine forall₂_imp_mem ?_ hpairs
  rintro pair hpair pair' hpair' ⟨hkey, hvalue⟩
  obtain ⟨⟨hformed, htext⟩, hvalueFormed⟩ := formed_of_mem_pairsUnder h (hlist pair hpair)
  obtain ⟨⟨hformed', htext'⟩, hvalueFormed'⟩ := formed_of_mem_pairsUnder h' (hlist' pair' hpair')
  rw [← hkey] at htext'
  exact ⟨sameContent_of_isText hformed hformed' htext htext', hvalue hvalueFormed hvalueFormed'⟩

theorem pairsUnder_lifecycle {found : Option Node} {programs : List core.LifecycleProgram}
    (h : IsOptional (IsLifecycle core) [] found programs) :
    List.Forall₂ (fun pair lifecycleProgram => ∃ (action : LifecycleAction) (program : _),
      pair.1.scalar = action.name ∧ IsProgram core pair.2 program ∧
        core.lifecycleProgram action program = .ok lifecycleProgram) (pairsUnder found)
      programs := by
  cases found with
  | none =>
      obtain rfl : programs = [] := h
      exact List.Forall₂.nil
  | some node => exact h.2

theorem Faithful.sameLifecycle (hcore : Faithful core) {found found' : Option Node}
    {programs : List core.LifecycleProgram} (hfound : MappingUnder found)
    (hfound' : MappingUnder found') (h : IsOptional (IsLifecycle core) [] found programs)
    (h' : IsOptional (IsLifecycle core) [] found' programs) :
    SamePairs (pairsUnder found) (pairsUnder found') := by
  apply samePairs_of_forall₂ hfound hfound' (fun _ hpair => hpair) (fun _ hpair => hpair)
  refine forall₂_trans ?_ (pairsUnder_lifecycle h) (List.Forall₂.flip (pairsUnder_lifecycle h'))
  intro pair lifecycleProgram pair' hleft hright
  obtain ⟨action, program, hname, hprogram, haccepted⟩ := hleft
  obtain ⟨action', program', hname', hprogram', haccepted'⟩ := hright
  obtain ⟨rfl, rfl⟩ := hcore.lifecycle _ _ _ _ _ haccepted haccepted'
  exact ⟨hname.trans hname'.symm, fun hformed hformed' =>
    hcore.sameProgram hformed hformed' hprogram hprogram'⟩

/-! ### Requirements -/

/-- Entries of one scope whose nodes have the same content. -/
def SameEntry (entry entry' : RequirementEntry) : Prop :=
  entry.name = entry'.name ∧ entry.node.SameContent entry'.node

/-- A requirement tells the scope and the subject of its entry. -/
theorem Faithful.sameEntries (hcore : Faithful core) {origin origin' : SourceOrigin}
    {entries entries' : List RequirementEntry}
    {declarations declarations' : List core.RequirementDeclaration}
    (hformed : ∀ entry ∈ entries, entry.node.Formed)
    (hformed' : ∀ entry ∈ entries', entry.node.Formed)
    (h : List.Forall₂ (RequirementEntry.Declares core origin) entries declarations)
    (h' : List.Forall₂ (RequirementEntry.Declares core origin') entries' declarations')
    (hsame : List.Forall₂ (RequirementUpTo core fun _ _ => True) declarations declarations') :
    List.Forall₂ SameEntry entries entries' := by
  have hscopes : List.Forall₂ (fun entry declaration' => ∃ scope subject site',
      entry.name.scope core = .ok scope ∧ IsSubject core entry.node subject ∧
      core.requirementDeclaration scope subject site' = .ok declaration') entries
      declarations' := by
    refine forall₂_trans ?_ h hsame
    intro entry declaration declaration' hdeclares hupTo
    obtain ⟨scope, subject, site, hscope, hsubject, -, hdeclaration⟩ := hdeclares
    obtain ⟨scope', subject', site', site'', -, hleft, hright⟩ := hupTo
    obtain ⟨rfl, rfl⟩ := hcore.requirement _ _ _ _ _ _ _ hdeclaration hleft
    exact ⟨scope, subject, site'', hscope, hsubject, hright⟩
  have hsubjects : List.Forall₂ (fun entry entry' => entry.name = entry'.name ∧ ∃ subject,
      IsSubject core entry.node subject ∧ IsSubject core entry'.node subject) entries entries' := by
    refine forall₂_trans ?_ hscopes (List.Forall₂.flip h')
    intro entry declaration entry' hleft hright
    obtain ⟨scope, subject, site, hscope, hsubject, hdeclaration⟩ := hleft
    obtain ⟨scope', subject', site', hscope', hsubject', -, hdeclaration'⟩ := hright
    obtain ⟨rfl, rfl⟩ := hcore.requirement _ _ _ _ _ _ _ hdeclaration hdeclaration'
    exact ⟨hcore.scopes _ _ _ hscope hscope', subject, hsubject, hsubject'⟩
  refine forall₂_imp_mem ?_ hsubjects
  rintro entry hentry entry' hentry' ⟨hname, subject, hsubject, hsubject'⟩
  exact ⟨hname, hcore.sameSubject (hformed entry hentry) (hformed' entry' hentry') hsubject
    hsubject'⟩

theorem filter_optionalEntries (name name' : ScopeName) (found : Option Node) :
    (optionalEntries name found).filter (·.name = name') =
      if name = name' then optionalEntries name found else [] := by
  by_cases hname : name = name'
  · rw [if_pos hname, List.filter_eq_self]
    intro entry hentry
    simp [name_of_mem_optionalEntries hentry, hname]
  · rw [if_neg hname, List.filter_eq_nil_iff]
    intro entry hentry
    simp [name_of_mem_optionalEntries hentry, hname]

theorem filter_lifecycleEntries (name : ScopeName) (found : Option Node)
    (hname : ∀ action, name ≠ .lifecycle action) :
    (lifecycleEntries found).filter (·.name = name) = [] := by
  rw [List.filter_eq_nil_iff]
  intro entry hentry
  obtain ⟨action, haction⟩ := name_of_mem_lifecycleEntries hentry
  simpa [haction] using (hname action).symm

theorem filter_requirementEntries (node : Node) :
    node.requirementEntries.filter (·.name = .build) =
        optionalEntries .build (node.field? (ascii "build")) ∧
      node.requirementEntries.filter (·.name = .run) =
        optionalEntries .run (node.field? (ascii "run")) ∧
      node.requirementEntries.filter (·.name = .check) =
        optionalEntries .check (node.field? (ascii "check")) := by
  simp [requirementEntries_eq, filter_optionalEntries, filter_lifecycleEntries]

theorem map_node_optionalEntries (name : ScopeName) (found : Option Node) :
    (optionalEntries name found).map RequirementEntry.node = childrenUnder found := by
  cases found with
  | none => rfl
  | some sequence =>
      change (scopeEntries name sequence).map RequirementEntry.node = sequence.children
      rw [scopeEntries, List.map_map]
      exact List.zipIdx_map_fst 0 sequence.children

/-- The text of the action a lifecycle scope belongs to; no other scope has one. -/
def ScopeName.actionText : ScopeName → Bytes
  | .lifecycle action => action.name
  | .build | .run | .check => []

theorem filter_actionText (node : Node) :
    node.requirementEntries.filter (·.name.actionText ≠ []) =
      lifecycleEntries (node.field? (ascii "lifecycle")) := by
  have hscope : ∀ name found, ScopeName.actionText name = [] →
      (optionalEntries name found).filter (·.name.actionText ≠ []) = [] := by
    intro name found hname
    rw [List.filter_eq_nil_iff]
    intro entry hentry
    simp [name_of_mem_optionalEntries hentry, hname]
  have hlifecycle : ∀ found, (lifecycleEntries found).filter (·.name.actionText ≠ []) =
      lifecycleEntries found := by
    intro found
    rw [List.filter_eq_self]
    intro entry hentry
    obtain ⟨action, haction⟩ := name_of_mem_lifecycleEntries hentry
    rw [haction]
    cases action <;> decide
  rw [requirementEntries_eq, List.filter_append, List.filter_append, List.filter_append,
    hscope _ _ rfl, hscope _ _ rfl, hscope _ _ rfl, hlifecycle]
  rfl

/-- What is found under the `lifecycle` key of `requirements`: sequences under action names. -/
structure GroupsUnder (found : Option Node) : Prop where
  mapping : MappingUnder found
  actions : ∀ pair ∈ pairsUnder found, ∃ action : LifecycleAction, pair.1.scalar = action.name
  sequences : ∀ pair ∈ pairsUnder found, pair.2.kind = .sequence

theorem nodup_pairsUnder {found : Option Node} (h : MappingUnder found) :
    ((pairsUnder found).map (·.1.scalar)).Nodup := by
  cases found with
  | none => exact List.nodup_nil
  | some node =>
      obtain ⟨hnode, hkind⟩ := h node rfl
      exact (hnode.valid.admitted hkind).distinct

/-- The lifecycle entries are the items of the groups, tagged with the action of their group. -/
theorem tagged_lifecycleEntries {found : Option Node} (h : GroupsUnder found) :
    (lifecycleEntries found).map (fun entry => (entry.name.actionText, entry.node)) =
      Blocks.tagged ((pairsUnder found).map fun pair => (pair.1.scalar, pair.2.children)) := by
  have hentries : lifecycleEntries found = (pairsUnder found).flatMap actionEntries := by
    cases found <;> rfl
  rw [hentries, List.map_flatMap, Blocks.tagged, List.flatMap_map]
  apply List.flatMap_congr
  intro pair hpair
  obtain ⟨action, hname⟩ := h.actions pair hpair
  rw [actionEntries, hname, named?_name]
  change (scopeEntries (.lifecycle action) pair.2).map _ = _
  have hchildren := List.zipIdx_map_fst 0 pair.2.children
  rw [scopeEntries, List.map_map]
  calc
    pair.2.children.zipIdx.map _ =
        (pair.2.children.zipIdx.map Prod.fst).map fun child => (action.name, child) := by
      rw [List.map_map]
      rfl
    _ = pair.2.children.map fun child => (action.name, child) := by rw [hchildren]

/-- The entries of the lifecycle scopes split back into the groups that are not empty. -/
theorem sameGroups {found found' : Option Node} (h : GroupsUnder found) (h' : GroupsUnder found')
    (hentries : List.Forall₂ SameEntry (lifecycleEntries found) (lifecycleEntries found')) :
    SamePairs (filledPairsUnder found) (filledPairsUnder found') := by
  have htagged : List.Forall₂ (fun a b => a.1 = b.1 ∧ Node.SameContent a.2 b.2)
      (Blocks.tagged ((pairsUnder found).map fun pair => (pair.1.scalar, pair.2.children)))
      (Blocks.tagged ((pairsUnder found').map fun pair => (pair.1.scalar, pair.2.children))) := by
    rw [← tagged_lifecycleEntries h, ← tagged_lifecycleEntries h', List.forall₂_map_left_iff,
      List.forall₂_map_right_iff]
    exact hentries.imp fun entry entry' hentry => ⟨congrArg ScopeName.actionText hentry.1, hentry.2⟩
  have hnames : ∀ found : Option Node, MappingUnder found →
      (((pairsUnder found).map fun pair => (pair.1.scalar, pair.2.children)).map
        Prod.fst).Nodup := by
    intro found hfound
    rw [List.map_map]
    exact nodup_pairsUnder hfound
  have hfilled := Blocks.forall₂_filled_of_tagged (hnames found h.mapping)
    (hnames found' h'.mapping) htagged
  rw [Blocks.filled, Blocks.filled, List.filter_map, List.filter_map, List.forall₂_map_left_iff,
    List.forall₂_map_right_iff] at hfilled
  have hmem : ∀ {found : Option Node}, ∀ pair ∈ filledPairsUnder found, pair ∈ pairsUnder found :=
    fun _ hpair => (List.mem_filter.mp hpair).1
  apply samePairs_of_forall₂ h.mapping h'.mapping hmem hmem
  refine forall₂_imp_mem ?_ hfilled
  rintro pair hpair pair' hpair' ⟨hkey, hitems⟩
  exact ⟨hkey, fun hformed hformed' => sameContent_of_items hformed hformed'
    (h.sequences pair (hmem pair hpair)) (h'.sequences pair' (hmem pair' hpair')) hitems⟩

theorem sequenceUnder_scope {path : Bytes} {scope : Except CoreError core.RequirementScope}
    {key : Bytes} {declarations : List core.RequirementDeclaration} (hformed : node.Formed)
    (h : IsOptional (IsRequirementSequence core context path scope) [] (node.field? key)
      declarations) : SequenceUnder (node.field? key) := by
  intro child hfield
  rw [hfield] at h
  obtain ⟨_, _, hkind, -⟩ := h
  exact ⟨hformed.field hfield, hkind⟩

theorem groupsUnder_lifecycle {path : Bytes} {groups : List (List core.RequirementDeclaration)}
    (hformed : node.Formed)
    (h : IsOptional (IsLifecycleRequirements core context path) []
      (node.field? (ascii "lifecycle")) groups) :
    GroupsUnder (node.field? (ascii "lifecycle")) := by
  cases hfield : node.field? (ascii "lifecycle") with
  | none =>
      refine ⟨fun child hchild => absurd hchild (by simp), ?_, ?_⟩
      · exact fun pair hpair => absurd hpair List.not_mem_nil
      · exact fun pair hpair => absurd hpair List.not_mem_nil
  | some lifecycle =>
      rw [hfield] at h
      obtain ⟨hkind, hgroups⟩ := h
      have hpair := exists_forall₂_iff.mp ⟨groups, hgroups⟩
      refine ⟨?_, fun pair hmem => ?_, fun pair hmem => ?_⟩
      · intro child hchild
        obtain rfl := Option.some.inj hchild
        exact ⟨hformed.field hfield, hkind⟩
      · obtain ⟨_, action, hname, -⟩ := hpair pair hmem
        exact ⟨action, hname⟩
      · obtain ⟨_, _, -, _, -, hsequence, -⟩ := hpair pair hmem
        exact hsequence

/-- What the grammar says about the parts of a `requirements` mapping that was read. -/
structure RequirementParts (node : Node) : Prop where
  build : SequenceUnder (node.field? (ascii "build"))
  run : SequenceUnder (node.field? (ascii "run"))
  check : SequenceUnder (node.field? (ascii "check"))
  lifecycle : GroupsUnder (node.field? (ascii "lifecycle"))

theorem IsRequirements.parts {path : Bytes} {groups : RequirementGroups core}
    (h : IsRequirements core context path node groups) (hformed : node.Formed) :
    RequirementParts node :=
  ⟨sequenceUnder_scope hformed h.build, sequenceUnder_scope hformed h.run,
    sequenceUnder_scope hformed h.check, groupsUnder_lifecycle hformed h.lifecycle⟩

theorem Node.Formed.entries (h : node.Formed) :
    ∀ entry ∈ node.requirementEntries, entry.node.Formed :=
  fun _ hentry => h.inner (node_mem_requirementEntries node.self_mem_nodes hentry)

/-- Entries that are the same one by one are the same in each scope. -/
theorem sameRequirements_of_entries (hparts : RequirementParts node)
    (hparts' : RequirementParts node') (hkeys : node.HasKeys requirementKeys)
    (hkeys' : node'.HasKeys requirementKeys)
    (h : List.Forall₂ SameEntry node.requirementEntries node'.requirementEntries) :
    SameRequirements node node' := by
  have hscope : ∀ name : ScopeName,
      List.Forall₂ SameEntry (node.requirementEntries.filter (·.name = name))
        (node'.requirementEntries.filter (·.name = name)) := by
    intro name
    apply List.rel_filter ?_ h
    intro entry entry' hentry
    simp [hentry.1]
  have hitems : ∀ {name : ScopeName} {found found' : Option Node},
      List.Forall₂ SameEntry (optionalEntries name found) (optionalEntries name found') →
      List.Forall₂ Node.SameContent (childrenUnder found) (childrenUnder found') := by
    intro name found found' hentries
    rw [← map_node_optionalEntries name found, ← map_node_optionalEntries name found',
      List.forall₂_map_left_iff, List.forall₂_map_right_iff]
    exact hentries.imp fun _ _ hentry => hentry.2
  have hbuild := hscope .build
  have hrun := hscope .run
  have hcheck := hscope .check
  rw [(filter_requirementEntries node).1, (filter_requirementEntries node').1] at hbuild
  rw [(filter_requirementEntries node).2.1, (filter_requirementEntries node').2.1] at hrun
  rw [(filter_requirementEntries node).2.2, (filter_requirementEntries node').2.2] at hcheck
  constructor
  · intro key hlifecycle
    by_cases hkey : key ∈ requirementKeys
    · simp only [requirementKeys, List.mem_cons, List.not_mem_nil, or_false] at hkey
      rcases hkey with rfl | rfl | rfl | rfl
      · exact rel_filled hparts.build hparts'.build (hitems hbuild)
      · exact rel_filled hparts.run hparts'.run (hitems hrun)
      · exact rel_filled hparts.check hparts'.check (hitems hcheck)
      · exact absurd rfl hlifecycle
    · rw [Node.filled?, Node.filled?, hkeys.field?_eq_none hkey, hkeys'.field?_eq_none hkey]
      exact Option.Rel.none
  · apply sameGroups hparts.lifecycle hparts'.lifecycle
    rw [← filter_actionText node, ← filter_actionText node']
    apply List.rel_filter ?_ h
    intro entry entry' hentry
    simp [hentry.1]

theorem Faithful.sameRequirements (hcore : Faithful core) (h : node.Formed) (h' : node'.Formed)
    {groups groups' : RequirementGroups core}
    (hgroups : IsRequirements core context (ascii "requirements") node groups)
    (hgroups' : IsRequirements core context' (ascii "requirements") node' groups')
    (hsame : List.Forall₂ (RequirementUpTo core fun _ _ => True) (groups.flatten core)
      (groups'.flatten core)) : SameRequirements node node' := by
  have hentries := hcore.sameEntries h.entries h'.entries (declares_requirementEntries hgroups)
    (declares_requirementEntries hgroups') hsame
  exact sameRequirements_of_entries (hgroups.parts h) (hgroups'.parts h') hgroups.keys
    hgroups'.keys hentries

/-! ### Recipes -/

theorem mappingUnder_lifecycle {root : Node} (h : root.Formed)
    {programs : List core.LifecycleProgram}
    (hprograms : IsOptional (IsLifecycle core) [] (root.field? (ascii "lifecycle")) programs) :
    MappingUnder (root.field? (ascii "lifecycle")) := by
  intro child hfield
  rw [hfield] at hprograms
  exact ⟨h.field hfield, hprograms.1⟩

/-- What two recipes of one declaration, apart from provenances, have in common. -/
structure SameFields (fields fields' : RecipeFields core) : Prop where
  release : fields.release = fields'.release
  metadata : fields.metadata = fields'.metadata
  sources : fields.sources = fields'.sources
  build : fields.build = fields'.build
  requirements : List.Forall₂ (RequirementUpTo core fun _ _ => True)
    (fields.requirements.flatten core) (fields'.requirements.flatten core)
  lifecycle : fields.lifecycle = fields'.lifecycle
  architectures : fields.architectures = fields'.architectures
  check : fields.check = fields'.check

theorem Faithful.sameFields (hcore : Faithful core) {fields fields' : RecipeFields core}
    {declaration declaration' : core.RecipeDeclaration}
    (h : fields.declare core = .ok declaration) (h' : fields'.declare core = .ok declaration')
    (hsame : RecipeUpTo core (fun _ _ => True) declaration declaration') :
    SameFields fields fields' := by
  obtain ⟨_, _, _, _, _, _, _, _, _, _, _, hrequirements, -, hleft, hright⟩ := hsame
  obtain ⟨hrelease, hmetadata, hsources, hbuild, hlist, hlifecycle, harchitectures, hcheck⟩ :=
    hcore.recipe _ _ _ _ _ _ _ _ _ _ _ _ _ _ _ _ _ _ _ h hleft
  obtain ⟨hrelease', hmetadata', hsources', hbuild', hlist', hlifecycle', harchitectures',
    hcheck'⟩ := hcore.recipe _ _ _ _ _ _ _ _ _ _ _ _ _ _ _ _ _ _ _ h' hright
  rw [← hlist, ← hlist'] at hrequirements
  exact ⟨hrelease.trans hrelease'.symm, hmetadata.trans hmetadata'.symm,
    hsources.trans hsources'.symm, hbuild.trans hbuild'.symm, hrequirements,
    hlifecycle.trans hlifecycle'.symm, harchitectures.trans harchitectures'.symm,
    hcheck.trans hcheck'.symm⟩

section

variable {root root' : Node} {fields fields' : RecipeFields core}

theorem Faithful.rel_package (hcore : Faithful core) (h : root.Formed) (h' : root'.Formed)
    (hrecipe : IsRecipe core context root fields) (hrecipe' : IsRecipe core context' root' fields')
    (hsame : SameFields fields fields') :
    Option.Rel Node.SameContent (root.field? (ascii "package"))
      (root'.field? (ascii "package")) := by
  obtain ⟨package, hfield, -, hrelease, hmetadata⟩ := hrecipe.package
  obtain ⟨package', hfield', -, hrelease', hmetadata'⟩ := hrecipe'.package
  rw [← hsame.release] at hrelease'
  rw [← hsame.metadata] at hmetadata'
  exact rel_some hfield hfield' (hcore.samePackage (h.field hfield) (h'.field hfield') hrelease
    hrelease' hmetadata hmetadata')

theorem Faithful.rel_sources (hcore : Faithful core) (h : root.Formed) (h' : root'.Formed)
    (hrecipe : IsRecipe core context root fields) (hrecipe' : IsRecipe core context' root' fields')
    (hsame : SameFields fields fields') :
    Option.Rel Node.SameContent (root.field? (ascii "sources"))
      (root'.field? (ascii "sources")) := by
  obtain ⟨sources, hfield, hsources⟩ := hrecipe.sources
  obtain ⟨sources', hfield', hsources'⟩ := hrecipe'.sources
  rw [← hsame.sources] at hsources'
  exact rel_some hfield hfield'
    (hcore.sameSources (h.field hfield) (h'.field hfield') hsources hsources')

theorem Faithful.rel_build (hcore : Faithful core) (h : root.Formed) (h' : root'.Formed)
    (hrecipe : IsRecipe core context root fields) (hrecipe' : IsRecipe core context' root' fields')
    (hsame : SameFields fields fields') :
    Option.Rel Node.SameContent (root.field? (ascii "build")) (root'.field? (ascii "build")) := by
  obtain ⟨build, hfield, hprogram⟩ := hrecipe.build
  obtain ⟨build', hfield', hprogram'⟩ := hrecipe'.build
  rw [← hsame.build] at hprogram'
  exact rel_some hfield hfield'
    (hcore.sameProgram (h.field hfield) (h'.field hfield') hprogram hprogram')

theorem Faithful.rel_check (hcore : Faithful core) (h : root.Formed) (h' : root'.Formed)
    (hrecipe : IsRecipe core context root fields) (hrecipe' : IsRecipe core context' root' fields')
    (hsame : SameFields fields fields') :
    Option.Rel Node.SameContent (root.field? (ascii "check")) (root'.field? (ascii "check")) := by
  have hcheck := hrecipe.check
  rw [hsame.check] at hcheck
  have hpresent : ∀ child, (∃ program, IsProgram core child program ∧
      fields'.check = some program) → fields'.check ≠ none := by
    intro child hchild
    obtain ⟨program, -, hprogram⟩ := hchild
    simp [hprogram]
  apply rel_optional hcheck hrecipe'.check hpresent hpresent
  intro child child' hfield hfield' hchild hchild'
  obtain ⟨program, hprogram, hvalue⟩ := hchild
  obtain ⟨program', hprogram', hvalue'⟩ := hchild'
  obtain rfl := Option.some.inj (hvalue.symm.trans hvalue')
  exact hcore.sameProgram (h.field hfield) (h'.field hfield') hprogram hprogram'

/-- Recipes of one declaration, apart from provenances, are the same document. -/
theorem Faithful.sameDocument (hcore : Faithful core) (h : root.Formed) (h' : root'.Formed)
    (hrecipe : IsRecipe core context root fields) (hrecipe' : IsRecipe core context' root' fields')
    (hsame : SameFields fields fields') : SameDocument SameArchitectures root root' := by
  have hlifecycle := hrecipe'.lifecycle
  have harchitectures := hrecipe'.architectures
  rw [← hsame.lifecycle] at hlifecycle
  rw [← hsame.architectures] at harchitectures
  refine ⟨fun key hkey => ?_, ?_, ?_, ?_⟩
  · by_cases hallowed : key ∈ recipeKeys
    · simp only [recipeKeys, List.mem_cons, List.not_mem_nil, or_false, not_or] at hallowed hkey
      rcases hallowed with rfl | rfl | rfl | rfl | rfl | rfl | rfl | rfl
      · exact rel_text h h' hrecipe.format hrecipe'.format
      · exact hcore.rel_package h h' hrecipe hrecipe' hsame
      · exact absurd rfl hkey.1
      · exact hcore.rel_sources h h' hrecipe hrecipe' hsame
      · exact hcore.rel_build h h' hrecipe hrecipe' hsame
      · exact hcore.rel_check h h' hrecipe hrecipe' hsame
      · exact absurd rfl hkey.2.1
      · exact absurd rfl hkey.2.2
    · exact rel_none (hrecipe.keys.field?_eq_none hallowed) (hrecipe'.keys.field?_eq_none hallowed)
  · obtain ⟨node, hfield, hgroups⟩ := hrecipe.requirements
    obtain ⟨node', hfield', hgroups'⟩ := hrecipe'.requirements
    rw [hfield, hfield']
    exact Option.Rel.some (hcore.sameRequirements (h.field hfield) (h'.field hfield') hgroups
      hgroups' hsame.requirements)
  · exact hcore.sameLifecycle (mappingUnder_lifecycle h hrecipe.lifecycle)
      (mappingUnder_lifecycle h' hlifecycle) hrecipe.lifecycle hlifecycle
  · exact hcore.sameArchitectures h h' hrecipe.architectures harchitectures

end

/-- **Nothing is lost.** Over a faithful `libpkgsource`, two documents whose recipes differ in
nothing but provenances are the same tree after forgetting marks, the order of pairs outside the two
lifecycle mappings, and sections that are empty rather than absent. -/
theorem recipe_determines_document (core : Core) (hcore : Faithful core)
    (context context' : Context) (order order' : EvaluationOrder) (input input' : Input)
    (limits limits' : ParseLimits) (root root' : Node)
    (declaration declaration' : core.RecipeDeclaration)
    (hroot : documentOutcome input context.origin limits = .ok root)
    (hroot' : documentOutcome input' context'.origin limits' = .ok root')
    (hdeclaration : recipeValue core context order root = .ok declaration)
    (hdeclaration' : recipeValue core context' order' root' = .ok declaration')
    (hsame : RecipeUpTo core (fun _ _ => True) declaration declaration') :
    SameDocument SameArchitectures root root' := by
  have hformed := formed_of_documentOutcome hroot
  have hformed' := formed_of_documentOutcome hroot'
  obtain ⟨fields, hrecipe, hdeclares⟩ := (recipeValue_eq_ok_iff hformed.valid).mp hdeclaration
  obtain ⟨fields', hrecipe', hdeclares'⟩ := (recipeValue_eq_ok_iff hformed'.valid).mp hdeclaration'
  exact hcore.sameDocument hformed hformed' hrecipe hrecipe'
    (hcore.sameFields hdeclares hdeclares' hsame)

/-! ### Empty restrictions -/

theorem faithful_recording : Faithful Core.recording where
  packageReference _ _ _ h h' := Except.ok.inj (h.trans h'.symm)
  profileReference _ _ _ h h' := Except.ok.inj (h.trans h'.symm)
  packageSubject _ _ _ h h' := Sum.inl.inj (Except.ok.inj (h.trans h'.symm))
  profileSubject _ _ _ h h' := Sum.inr.inj (Except.ok.inj (h.trans h'.symm))
  subjects _ _ _ h h' := Sum.inl_ne_inr (Except.ok.inj (h.trans h'.symm))
  scopes name name' scope h h' := by
    have hscope : ∀ name : ScopeName, name.scope Core.recording = .ok name := by
      intro name
      cases name <;> rfl
    exact (Except.ok.inj ((hscope name).symm.trans h)).trans
      (Except.ok.inj ((hscope name').symm.trans h')).symm
  requirement _ _ _ _ _ _ _ h h' := by
    have hsame := Prod.mk.inj (Except.ok.inj (h.trans h'.symm))
    exact ⟨hsame.1, (Prod.mk.inj hsame.2).1⟩
  architectureReference _ _ _ h h' := Except.ok.inj (h.trans h'.symm)
  architectures _ _ _ _ _ h h' := Prod.mk.inj (Except.ok.inj (h.trans h'.symm))
  program _ _ _ h h' := (Prod.mk.inj (Except.ok.inj (h.trans h'.symm))).2
  lifecycle _ _ _ _ _ h h' := Prod.mk.inj (Except.ok.inj (h.trans h'.symm))
  digest _ _ _ h h' := (Prod.mk.inj (Except.ok.inj (h.trans h'.symm))).2
  remoteSource _ _ _ _ _ _ _ _ _ h h' := by
    cases Sum.inl.inj (Except.ok.inj (h.trans h'.symm))
    exact ⟨rfl, rfl, rfl, rfl⟩
  localSource _ _ _ _ _ _ _ _ _ h h' := by
    cases Sum.inr.inj (Except.ok.inj (h.trans h'.symm))
    exact ⟨rfl, rfl, rfl, rfl⟩
  sources _ _ _ _ _ _ _ _ _ h h' := Sum.inl_ne_inr (Except.ok.inj (h.trans h'.symm))
  release _ _ _ _ _ _ _ h h' := by
    cases Except.ok.inj (h.trans h'.symm)
    exact ⟨rfl, rfl, rfl⟩
  metadata _ _ _ _ _ _ _ _ _ h h' := by
    cases Except.ok.inj (h.trans h'.symm)
    exact ⟨rfl, rfl, rfl, rfl⟩
  recipe _ _ _ _ _ _ _ _ _ _ _ _ _ _ _ _ _ _ _ h h' := by
    cases Except.ok.inj (h.trans h'.symm)
    exact ⟨rfl, rfl, rfl, rfl, rfl, rfl, rfl, rfl⟩

theorem Permuted.length (h : Permuted node node') :
    node'.children.length = node.children.length := by
  induction h with
  | refl => rfl
  | tail _ hstep ih =>
      rw [← ih]
      cases hstep with
      | here hperm => rw [Pairing.length_unpairs, Pairing.length_unpairs, hperm.length_eq]
      | inside _ => simp only [List.length_append, List.length_cons]

theorem Node.SameContent.length (h : node.SameContent node') :
    node'.children.length = node.children.length := by
  obtain ⟨middle, hpermuted, halike⟩ := h
  rw [← hpermuted.length]
  cases halike with
  | intro _ hchildren => exact hchildren.length_eq.symm

def restrictedRecipe (architectures : EventTree) : EventTree :=
  .fields
    [("format", .text "zeppe-lin.recipe/1"),
      ("package", .fields
        [("name", .text "demo"), ("version", .text "1.0"), ("release", .text "1"),
          ("summary", .text "A demo"), ("licenses", .items [.text "MIT"])]),
      ("requirements", .fields []),
      ("sources", .items []),
      ("build", .fields [("language", .text "posix-shell"), ("script", .text "make")]),
      ("architectures", architectures)]

def targetOnly : EventTree := .fields [("target", .items [.text "x86_64"])]

def targetAndEmptyBuild : EventTree :=
  .fields [("build", .items []), ("target", .items [.text "x86_64"])]

def restrictedDeclaration : Core.recording.RecipeDeclaration :=
  ((ascii "demo", ascii "1.0", 1), (ascii "A demo", none, none, [ascii "MIT"]), [],
    (.posixShell, ascii "make"), [], [], ([], [ascii "x86_64"]),
    (ascii "recipe.yaml", ascii "document", 1, 1), none)

theorem architectures_conflated :
    Faithful Core.recording ∧
      documentOutcome (.spelling 300 (restrictedRecipe targetOnly)) ⟨ascii "recipe.yaml"⟩ {} =
        .ok (restrictedRecipe targetOnly).toNode ∧
      documentOutcome (.spelling 310 (restrictedRecipe targetAndEmptyBuild))
        ⟨ascii "recipe.yaml"⟩ {} = .ok (restrictedRecipe targetAndEmptyBuild).toNode ∧
      recipeValue Core.recording ⟨⟨ascii "recipe.yaml"⟩, false⟩ .textual
        (restrictedRecipe targetOnly).toNode = .ok restrictedDeclaration ∧
      recipeValue Core.recording ⟨⟨ascii "recipe.yaml"⟩, false⟩ .textual
        (restrictedRecipe targetAndEmptyBuild).toNode = .ok restrictedDeclaration ∧
      RecipeUpTo Core.recording (fun _ _ => True) restrictedDeclaration restrictedDeclaration ∧
      ¬SameDocument SameArchitecturesAsWritten (restrictedRecipe targetOnly).toNode
        (restrictedRecipe targetAndEmptyBuild).toNode := by
  refine ⟨faithful_recording, rfl, rfl, rfl, rfl, ?_, ?_⟩
  · exact ⟨_, _, _, _, [], [], _, _, _, _, _, List.Forall₂.nil, trivial, rfl, rfl⟩
  · intro h
    have hsame : Option.Rel Node.SameContent (some targetOnly.toNode)
      (some targetAndEmptyBuild.toNode) := h.architectures
    cases hsame with
    | some hcontent =>
        have hlength := hcontent.length
        exact absurd hlength (by decide)

theorem recipe_determines_document_restricted :
    SameDocument SameArchitectures (restrictedRecipe targetOnly).toNode
      (restrictedRecipe targetAndEmptyBuild).toNode :=
  recipe_determines_document Core.recording faithful_recording
    ⟨⟨ascii "recipe.yaml"⟩, false⟩ ⟨⟨ascii "recipe.yaml"⟩, false⟩ .textual .textual
    (.spelling 300 (restrictedRecipe targetOnly))
    (.spelling 310 (restrictedRecipe targetAndEmptyBuild)) {} {} _ _ restrictedDeclaration
    restrictedDeclaration rfl rfl rfl rfl
    ⟨_, _, _, _, [], [], _, _, _, _, _, List.Forall₂.nil, trivial, rfl, rfl⟩

end PkgsourceYaml
