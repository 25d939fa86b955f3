import PkgsourceYaml.Order
import PkgsourceYaml.Proof.Exactness

/-!
# Trees that differ in mapping order

A tree and the same tree with its mappings in another order are looked at from the root: what is
found under a key on one side is found on the other, up to order further below. Key validation and
both grammars follow this relation downwards.
-/

namespace PkgsourceYaml

open Pairing Entrywise Throwing

variable {core : Core} {context : Context} {tree tree' : Node}

/-! ### Reordered trees -/

theorem Shuffles.symm (h : Shuffles tree tree') : Shuffles tree' tree := by
  induction h with
  | here h => exact .here h.symm
  | inside _ ih => exact .inside ih

theorem Permuted.refl (tree : Node) : Permuted tree tree := Relation.ReflTransGen.refl

theorem Permuted.symm (h : Permuted tree tree') : Permuted tree' tree := by
  induction h with
  | refl => exact Permuted.refl tree
  | tail _ hstep ih => exact Relation.ReflTransGen.head hstep.symm ih

theorem Permuted.trans {tree'' : Node} (h : Permuted tree tree') (h' : Permuted tree' tree'') :
    Permuted tree tree'' := Relation.ReflTransGen.trans h h'

theorem Permuted.same (h : Permuted tree tree') :
    tree'.kind = tree.kind ∧ tree'.mark = tree.mark ∧ tree'.scalar = tree.scalar := by
  induction h with
  | refl => exact ⟨rfl, rfl, rfl⟩
  | tail _ hstep ih =>
      cases hstep with
      | here _ => exact ih
      | inside _ => exact ih

theorem Permuted.provenance (h : Permuted tree tree') (path : Bytes) :
    PkgsourceYaml.provenance core context path tree' =
      PkgsourceYaml.provenance core context path tree := by
  rw [PkgsourceYaml.provenance, h.same.2.1]
  rfl

theorem forall₂_below {before after : List Node} {child child' : Node} (h : Permuted child child') :
    List.Forall₂ Permuted (before ++ child :: after) (before ++ child' :: after) := by
  have hsame : ∀ list : List Node, List.Forall₂ Permuted list list :=
    fun list => List.forall₂_same.mpr fun node _ => Permuted.refl node
  exact List.rel_append (hsame before) (List.Forall₂.cons h (hsame after))

/-- Only mappings are reordered; other nodes keep their children in place. -/
theorem Permuted.ordered (h : Permuted tree tree') (hkind : tree.kind ≠ .mapping) :
    List.Forall₂ Permuted tree.children tree'.children := by
  induction h with
  | refl => exact List.forall₂_same.mpr fun node _ => Permuted.refl node
  | @tail middle last hmiddle hstep ih =>
      have hmiddleKind : middle.kind ≠ .mapping := by
        rw [(Permuted.same hmiddle).1]
        exact hkind
      have hlast : List.Forall₂ Permuted middle.children last.children := by
        cases hstep with
        | here _ => exact absurd rfl hmiddleKind
        | inside h => exact forall₂_below (Relation.ReflTransGen.single h)
      exact forall₂_trans (R := Permuted) (U := Permuted) (fun _ _ _ => Permuted.trans) ih hlast

def PermutedPair (pair pair' : Node × Node) : Prop :=
  Permuted pair.1 pair'.1 ∧ Permuted pair.2 pair'.2

theorem Permuted.paired (h : Permuted tree tree') (heven : tree.children.length % 2 = 0) :
    tree'.children.length % 2 = 0 ∧ ForallPerm PermutedPair tree.pairs tree'.pairs := by
  induction h with
  | refl => exact ⟨heven, .of_perm (fun pair => ⟨.refl pair.1, .refl pair.2⟩) (.refl _)⟩
  | @tail middle last hmiddle hstep ih =>
      obtain ⟨hmiddleEven, hpairs⟩ := ih
      have hlast : last.children.length % 2 = 0 ∧
          ForallPerm PermutedPair middle.pairs last.pairs := by
        cases hstep with
        | @here mark text list list' h =>
            refine ⟨by simp [length_unpairs],
              .of_perm (fun pair => ⟨.refl pair.1, .refl pair.2⟩) ?_⟩
            simpa only [Node.pairs, pairs_unpairs] using h
        | inside h =>
            refine ⟨by simpa using hmiddleEven, .of_forall₂ ?_⟩
            exact forall₂_pairs (forall₂_below (Relation.ReflTransGen.single h))
      refine ⟨hlast.1, hpairs.trans ?_ hlast.2⟩
      exact fun _ _ _ h h' => ⟨h.1.trans h'.1, h.2.trans h'.2⟩

/-! ### Key validation -/

theorem Node.KeysAdmitted.permuted (h : tree.KeysAdmitted)
    (hpairs : ForallPerm PermutedPair tree.pairs tree'.pairs) : tree'.KeysAdmitted := by
  have hkeys : ∀ pair' ∈ tree'.pairs, ∃ pair ∈ tree.pairs,
      pair'.1.kind = pair.1.kind ∧ pair'.1.scalar = pair.1.scalar := by
    intro pair' hpair'
    obtain ⟨pair, hpair, hkey, -⟩ := hpairs.exists_left hpair'
    exact ⟨pair, hpair, hkey.same.1, hkey.same.2.2⟩
  refine ⟨fun pair' hpair' => ?_, fun pair' hpair' => ?_, ?_⟩
  · obtain ⟨pair, hpair, hkind, -⟩ := hkeys pair' hpair'
    rw [hkind]
    exact h.scalar pair hpair
  · obtain ⟨pair, hpair, -, htext⟩ := hkeys pair' hpair'
    rw [htext]
    exact h.noMerge pair hpair
  · exact (hpairs.map_perm fun _ _ hpair => hpair.1.same.2.2.symm).nodup_iff.mp h.distinct

/-- Key validation does not see the order of pairs. -/
theorem Permuted.valid (h : Permuted tree tree') (hvalid : tree.Valid) : tree'.Valid := by
  induction tree using Node.induction generalizing tree' with
  | step tree ih =>
      have hsame := h.same.1
      obtain ⟨kind', mark', text', children'⟩ := tree'
      cases hvalid with
      | scalar =>
          obtain rfl : kind' = .scalar := hsame
          exact .scalar
      | sequence items =>
          obtain rfl : kind' = .sequence := hsame
          refine .sequence fun item' hitem' => ?_
          have hordered := ForallPerm.of_forall₂ (h.ordered (by simp))
          obtain ⟨item, hitem, hpermuted⟩ := hordered.exists_left hitem'
          exact ih item hitem hpermuted (items item hitem)
      | mapping paired keys values =>
          obtain rfl : kind' = .mapping := hsame
          obtain ⟨heven, hpairs⟩ := h.paired paired
          refine .mapping heven (keys.permuted hpairs) fun pair' hpair' => ?_
          obtain ⟨pair, hpair, -, hvalue⟩ := hpairs.exists_left hpair'
          exact ih pair.2 (mem_of_mem_pairs hpair).2 hvalue (values pair hpair)

/-! ### Looking things up on both sides -/

/-- Two valid trees that differ only in the order of pairs. -/
structure Twin (node node' : Node) : Prop where
  permuted : Permuted node node'
  valid : node.Valid
  valid' : node'.Valid

namespace Twin

variable {node node' : Node}

theorem symm (h : Twin node node') : Twin node' node := ⟨h.permuted.symm, h.valid', h.valid⟩

theorem kind (h : Twin node node') : node'.kind = node.kind := h.permuted.same.1

theorem isText (h : Twin node node') {text : Bytes} (htext : node.IsText text) :
    node'.IsText text :=
  ⟨h.kind.trans htext.1, h.permuted.same.2.2.trans htext.2⟩

theorem entries (h : Twin node node') (hkind : node.kind = .mapping) :
    ForallPerm (fun pair pair' => Permuted pair.1 pair'.1 ∧ Twin pair.2 pair'.2) node.pairs
      node'.pairs := by
  apply (h.permuted.paired (h.valid.even hkind)).2.imp_mem
  intro pair hpair pair' hpair' hpermuted
  exact ⟨hpermuted.1, hpermuted.2, h.valid.pair hkind hpair,
    h.valid'.pair (h.kind.trans hkind) hpair'⟩

theorem children (h : Twin node node') (hkind : node.kind = .sequence) :
    List.Forall₂ Twin node.children node'.children := by
  refine forall₂_imp_mem ?_ (h.permuted.ordered (by rw [hkind]; decide))
  exact fun child hchild child' hchild' hpermuted => ⟨hpermuted, h.valid.item hkind hchild,
    h.valid'.item (h.kind.trans hkind) hchild'⟩

theorem field (h : Twin node node') (hkind : node.kind = .mapping) {key : Bytes} {child : Node}
    (hfield : node.field? key = some child) :
    ∃ child', node'.field? key = some child' ∧ Twin child child' := by
  obtain ⟨keyNode, hpair, hkey⟩ := Node.pair_of_field? hfield
  have hkind' := h.symm.kind.symm.trans hkind
  obtain ⟨pair', hpair', hsame, htwin⟩ := (h.symm.entries hkind').exists_left hpair
  refine ⟨pair'.2, ?_, htwin.symm⟩
  rw [← hkey, hsame.same.2.2]
  exact h.valid'.field?_of_pair hkind' hpair'

theorem field_none (h : Twin node node') (hkind : node.kind = .mapping) {key : Bytes}
    (hfield : node.field? key = none) : node'.field? key = none := by
  cases hfield' : node'.field? key with
  | none => rfl
  | some child' =>
      obtain ⟨child, hchild, -⟩ := h.symm.field (h.kind.trans hkind) hfield'
      rw [hfield] at hchild
      cases hchild

theorem hasKeys (h : Twin node node') {allowed : List Bytes} (hkeys : node.HasKeys allowed) :
    node'.HasKeys allowed := by
  refine ⟨h.kind.trans hkeys.1, fun pair' hpair' => ?_⟩
  obtain ⟨pair, hpair, hsame, -⟩ := (h.entries hkeys.1).exists_left hpair'
  rw [hsame.same.2.2]
  exact hkeys.2 pair hpair

theorem text (h : Twin node node') (hkind : node.kind = .mapping) {key text : Bytes}
    (htext : node.Text key text) : node'.Text key text := by
  obtain ⟨child, hfield, hchild⟩ := htext
  obtain ⟨child', hfield', htwin⟩ := h.field hkind hfield
  exact ⟨child', hfield', htwin.isText hchild⟩

/-! ### The shapes grammars are made of -/

section

variable {α : Type}

theorem isItems (h : Twin node node') {Reads : Nat → Node → α → Prop} {values : List α}
    (hreads : ∀ index entry entry' value, Twin entry entry' → Reads index entry value →
      Reads index entry' value)
    (hitems : IsItems Reads node values) : IsItems Reads node' values :=
  ⟨h.kind.trans hitems.1, forall₂_zipIdx_imp hreads (h.children hitems.1) 0 hitems.2⟩

theorem isOptional (h : Twin node node') (hkind : node.kind = .mapping)
    {Reads : Node → α → Prop} {absent value : α} {key : Bytes}
    (hreads : ∀ child child', Twin child child' → Reads child value → Reads child' value)
    (hoptional : IsOptional Reads absent (node.field? key) value) :
    IsOptional Reads absent (node'.field? key) value := by
  cases hfield : node.field? key with
  | none =>
      rw [hfield] at hoptional
      rw [h.field_none hkind hfield]
      exact hoptional
  | some child =>
      rw [hfield] at hoptional
      obtain ⟨child', hfield', htwin⟩ := h.field hkind hfield
      rw [hfield']
      exact hreads child child' htwin hoptional

/-- The values of a mapping follow its keys. -/
theorem isEntries (h : Twin node node') {Reads : Node → Node → α → Prop} {values : List α}
    (hreads : ∀ key key' child child' value, Permuted key key' → Twin child child' →
      Reads key child value → Reads key' child' value)
    (hentries : IsEntries Reads node values) :
    ∃ values', IsEntries Reads node' values' ∧
      Rearranged (keysUnder (some node)) (keysUnder (some node')) values values' := by
  obtain ⟨middle, hrelated, hperm⟩ := h.entries hentries.1
  have hmiddle : List.Forall₂ (fun pair value => Reads pair.1 pair.2 value) middle values := by
    refine forall₂_trans ?_ (List.Forall₂.flip hrelated) hentries.2
    exact fun _ _ _ hpair hvalue => hreads _ _ _ _ _ hpair.1 hpair.2 hvalue
  obtain ⟨values', hvalues', hzip⟩ :=
    exists_forall₂_of_perm (f := fun pair => pair.1.scalar) hperm hmiddle
  have hkeys : node.pairs.map (·.1.scalar) = middle.map (·.1.scalar) :=
    map_eq_of_forall₂ (fun _ _ hpair => hpair.1.same.2.2.symm) hrelated
  refine ⟨values', ⟨h.kind.trans hentries.1, hvalues'⟩, ?_, ?_, ?_⟩
  · exact (List.length_map _).trans hentries.2.length_eq
  · exact (List.length_map _).trans hvalues'.length_eq
  · change ((node.pairs.map (·.1.scalar)).zip values).Perm _
    rw [hkeys]
    exact hzip

theorem isOptionalEntries (h : Twin node node') (hkind : node.kind = .mapping)
    {Reads : Node → Node → α → Prop} {key : Bytes} {values : List α}
    (hreads : ∀ key key' child child' value, Permuted key key' → Twin child child' →
      Reads key child value → Reads key' child' value)
    (hoptional : IsOptional (IsEntries Reads) [] (node.field? key) values) :
    ∃ values', IsOptional (IsEntries Reads) [] (node'.field? key) values' ∧
      Rearranged (keysUnder (node.field? key)) (keysUnder (node'.field? key)) values values' := by
  cases hfield : node.field? key with
  | none =>
      rw [hfield] at hoptional
      obtain rfl : values = [] := hoptional
      rw [h.field_none hkind hfield]
      exact ⟨[], rfl, rfl, rfl, List.Perm.refl _⟩
  | some child =>
      rw [hfield] at hoptional
      obtain ⟨child', hfield', htwin⟩ := h.field hkind hfield
      rw [hfield']
      exact htwin.isEntries hreads hoptional

end

/-! ### The sections of the grammars -/

theorem isSubject (h : Twin node node') {subject : core.RequirementSubject}
    (hsubject : IsSubject core node subject) : IsSubject core node' subject := by
  cases hsubject with
  | package name hkeys hpackage hprofile haccepted =>
      exact .package name (h.hasKeys hkeys) (h.text hkeys.1 hpackage)
        (h.field_none hkeys.1 hprofile) haccepted
  | profile name hkeys hpackage hprofile haccepted =>
      exact .profile name (h.hasKeys hkeys) (h.field_none hkeys.1 hpackage)
        (h.text hkeys.1 hprofile) haccepted

theorem isProgram (h : Twin node node') {program : core.Program}
    (hprogram : IsProgram core node program) : IsProgram core node' program := by
  obtain ⟨hkeys, hlanguage, material, hmaterial, haccepted⟩ := hprogram
  exact ⟨h.hasKeys hkeys, h.text hkeys.1 hlanguage, material, h.text hkeys.1 hmaterial, haccepted⟩

theorem isRequirementSequence (h : Twin node node') {path : Bytes}
    {scope : Except CoreError core.RequirementScope}
    {declarations : List core.RequirementDeclaration}
    (hsequence : IsRequirementSequence core context path scope node declarations) :
    IsRequirementSequence core context path scope node' declarations := by
  obtain ⟨scope', hscope, hitems⟩ := hsequence
  refine ⟨scope', hscope, h.isItems ?_ hitems⟩
  rintro index entry entry' declaration htwin ⟨subject, site, hsubject, hsite, haccepted⟩
  exact ⟨subject, site, htwin.isSubject hsubject, (htwin.permuted.provenance _).trans hsite,
    haccepted⟩

/-- The requirements are the same, but for the order of the lifecycle groups. -/
theorem isRequirements (h : Twin node node') {path : Bytes} {groups : RequirementGroups core}
    (hgroups : IsRequirements core context path node groups) :
    ∃ lifecycle, IsRequirements core context path node' { groups with lifecycle := lifecycle } ∧
      Rearranged (keysUnder (node.field? (ascii "lifecycle")))
        (keysUnder (node'.field? (ascii "lifecycle"))) groups.lifecycle lifecycle := by
  have hkind := hgroups.keys.1
  have hscope : ∀ {key : Bytes} {scope : Except CoreError core.RequirementScope}
      {declarations : List core.RequirementDeclaration},
      IsOptional (IsRequirementSequence core context (childPath path key) scope) []
        (node.field? key) declarations →
      IsOptional (IsRequirementSequence core context (childPath path key) scope) []
        (node'.field? key) declarations :=
    h.isOptional hkind fun _ _ htwin => htwin.isRequirementSequence
  obtain ⟨lifecycle, hlifecycle, hrearranged⟩ := h.isOptionalEntries hkind
    (fun _ _ _ _ _ hkey htwin ⟨action, hname, hsequence⟩ => ⟨action, hkey.same.2.2.trans hname,
      hkey.same.2.2 ▸ htwin.isRequirementSequence hsequence⟩) hgroups.lifecycle
  exact ⟨lifecycle, ⟨h.hasKeys hgroups.keys, hscope hgroups.build, hscope hgroups.run,
    hscope hgroups.check, hlifecycle⟩, hrearranged⟩

theorem isArchitectureList (h : Twin node node') {references : List core.ArchitectureReference}
    (hlist : IsArchitectureList core node references) :
    IsArchitectureList core node' references :=
  h.isItems (fun _ _ _ _ htwin ⟨name, hname, haccepted⟩ =>
    ⟨name, htwin.isText hname, haccepted⟩) hlist

theorem isArchitectures (h : Twin node node') {architectures : core.ArchitectureRequirements}
    (harchitectures : IsArchitectures core node architectures) :
    IsArchitectures core node' architectures := by
  obtain ⟨hkeys, build, target, hbuild, htarget, haccepted⟩ := harchitectures
  exact ⟨h.hasKeys hkeys, build, target,
    h.isOptional hkeys.1 (fun _ _ htwin => htwin.isArchitectureList) hbuild,
    h.isOptional hkeys.1 (fun _ _ htwin => htwin.isArchitectureList) htarget, haccepted⟩

theorem isSource (h : Twin node node') {source : core.SourceInput}
    (hsource : IsSource core node source) : IsSource core node' source := by
  obtain ⟨hkeys, name, hash, content, unpack, hname, hhash, hcontent, hunpack, hlocated⟩ := hsource
  have hkind := hkeys.1
  refine ⟨h.hasKeys hkeys, name, hash, content, unpack, h.text hkind hname, h.text hkind hhash,
    hcontent, h.isOptional hkind (fun _ _ htwin h => ⟨htwin.isText h.1, h.2⟩) hunpack, ?_⟩
  cases hlocated with
  | url locator hurl hpath hcall =>
      exact .url locator (h.text hkind hurl) (h.field_none hkind hpath) hcall
  | path locator hurl hpath hcall =>
      exact .path locator (h.field_none hkind hurl) (h.text hkind hpath) hcall

theorem isSources (h : Twin node node') {sources : List core.SourceInput}
    (hsources : IsSources core node sources) : IsSources core node' sources :=
  h.isItems (fun _ _ _ _ htwin => htwin.isSource) hsources

theorem isRelease (h : Twin node node') {release : core.PackageRelease}
    (hrelease : IsRelease core node release) : IsRelease core node' release := by
  obtain ⟨name, version, number, ⟨hkeys, hname, hversion, text, htext, hnumber⟩, haccepted⟩ :=
    hrelease
  exact ⟨name, version, number, ⟨h.hasKeys hkeys, h.text hkeys.1 hname, h.text hkeys.1 hversion,
    text, h.text hkeys.1 htext, hnumber⟩, haccepted⟩

theorem isMetadata (h : Twin node node') (hkind : node.kind = .mapping)
    {metadata : core.PackageMetadata} (hmetadata : IsMetadata core node metadata) :
    IsMetadata core node' metadata := by
  obtain ⟨summary, description, homepage, licenses,
    ⟨hsummary, hdescription, hhomepage, list, hlist, hitems⟩, haccepted⟩ := hmetadata
  have htext : ∀ (child child' : Node) {value : Option Bytes}, Twin child child' →
      IsOptionalText child value → IsOptionalText child' value :=
    fun _ _ _ htwin ⟨found, hfound, hvalue⟩ => ⟨found, htwin.isText hfound, hvalue⟩
  obtain ⟨list', hlist', htwin⟩ := h.field hkind hlist
  exact ⟨summary, description, homepage, licenses, ⟨h.text hkind hsummary,
    h.isOptional hkind (fun _ _ => htext _ _) hdescription,
    h.isOptional hkind (fun _ _ => htext _ _) hhomepage, list', hlist',
    htwin.isItems (fun _ _ _ _ htwin => htwin.isText) hitems⟩, haccepted⟩

end Twin

end PkgsourceYaml
