import PkgsourceYaml.Canonical
import PkgsourceYaml.Proof.Plan
import PkgsourceYaml.Proof.Prefix
import PkgsourceYaml.Proof.Presentation

/-!
# Everything that can be said can be written down

The canonical document of a content is a strict document, and a parser reads it as the plan of the
content.
-/

namespace PkgsourceYaml

open Pairing EventTree Throwing

variable {context : Context}

/-! ### Written trees -/

namespace EventTree

/-- The tree is part of a strict document without marks, whatever its size. -/
structure Strict (tree : EventTree) : Prop where
  unmarked : tree.Unmarked
  bracketed : tree.Bracketed
  plain : tree.Plain
  paired : tree.kind = .mapping → tree.children.length % 2 = 0
  keys : tree.kind = .mapping → tree.toNode.KeysAdmitted

def Written (tree : EventTree) : Prop := ∀ subtree ∈ tree.subtrees, subtree.Strict

theorem map_unpairs {α β : Type} (f : α → β) (list : List (α × α)) :
    (unpairs list).map f = unpairs (list.map (Prod.map f f)) := by
  induction list with
  | nil => rfl
  | cons pair rest ih => simp only [unpairs, List.map_cons, Prod.map, ih]

theorem toNode_mappingOf (fields : List (Bytes × EventTree)) :
    (mappingOf fields).toNode = ⟨.mapping, ⟨1, 1⟩, [], unpairs (fields.map fun field =>
      ((scalarOf field.1).toNode, field.2.toNode))⟩ := by
  rw [mappingOf, toNode_collection, map_unpairs, List.map_map]
  rfl

theorem pairs_mappingOf (fields : List (Bytes × EventTree)) :
    (mappingOf fields).toNode.pairs =
      fields.map fun field => ((scalarOf field.1).toNode, field.2.toNode) := by
  rw [toNode_mappingOf, Node.pairs, pairs_unpairs]

theorem field?_mappingOf (fields : List (Bytes × EventTree)) (key : Bytes) :
    (mappingOf fields).toNode.field? key =
      (fields.find? (·.1 = key)).map fun field => field.2.toNode := by
  rw [Node.field?_eq rfl, pairs_mappingOf, List.find?_map, Option.map_map]
  rfl

theorem hasKeys_mappingOf {fields : List (Bytes × EventTree)} {allowed : List Bytes}
    (h : ∀ key ∈ fields.map Prod.fst, key ∈ allowed) :
    (mappingOf fields).toNode.HasKeys allowed := by
  refine ⟨rfl, fun pair hpair => ?_⟩
  rw [pairs_mappingOf] at hpair
  obtain ⟨field, hfield, rfl⟩ := List.mem_map.mp hpair
  exact h field.1 (List.mem_map_of_mem hfield)

theorem children_items {α : Type} (write : α → EventTree) (entries : List α) :
    (items (entries.map write)).toNode.children =
      entries.map fun entry => (write entry).toNode := by
  rw [items, toNode_collection, List.map_map]
  rfl

theorem written_scalarOf (value : Bytes) : (scalarOf value).Written := by
  intro subtree hsubtree
  obtain rfl := List.mem_singleton.mp hsubtree
  exact ⟨rfl, rfl, ⟨rfl, Or.inl rfl⟩, NodeKind.noConfusion, NodeKind.noConfusion⟩

theorem written_items {children : List EventTree} (h : ∀ child ∈ children, child.Written) :
    (items children).Written := by
  intro subtree hsubtree
  rw [items, subtrees_collection, List.mem_cons, List.mem_flatMap] at hsubtree
  rcases hsubtree with rfl | ⟨child, hchild, hsubtree⟩
  · exact ⟨⟨rfl, rfl⟩, Or.inl ⟨rfl, rfl, rfl⟩, ⟨rfl, Or.inl rfl⟩, NodeKind.noConfusion,
      NodeKind.noConfusion⟩
  · exact h child hchild subtree hsubtree

theorem written_itemsOf {α : Type} {write : α → EventTree} {entries : List α}
    (h : ∀ entry ∈ entries, (write entry).Written) : (items (entries.map write)).Written := by
  refine written_items fun child hchild => ?_
  obtain ⟨entry, hentry, rfl⟩ := List.mem_map.mp hchild
  exact h entry hentry

/-- A mapping is part of a strict document when its keys are distinct and none is a merge key. -/
theorem written_mappingOf {fields : List (Bytes × EventTree)}
    (hmerge : ascii "<<" ∉ fields.map Prod.fst) (hdistinct : (fields.map Prod.fst).Nodup)
    (h : ∀ field ∈ fields, field.2.Written) : (mappingOf fields).Written := by
  intro subtree hsubtree
  rw [mappingOf, subtrees_collection, List.mem_cons, List.mem_flatMap] at hsubtree
  rcases hsubtree with rfl | ⟨child, hchild, hsubtree⟩
  · refine ⟨⟨rfl, rfl⟩, Or.inr ⟨rfl, rfl, rfl⟩, ⟨rfl, Or.inl rfl⟩, fun _ => ?_, fun _ => ?_⟩
    · change (unpairs _).length % 2 = 0
      rw [length_unpairs, Nat.mul_mod_right]
    · change (mappingOf fields).toNode.KeysAdmitted
      refine ⟨fun pair hpair => ?_, fun pair hpair hkey => ?_, ?_⟩
      · rw [pairs_mappingOf] at hpair
        obtain ⟨field, -, rfl⟩ := List.mem_map.mp hpair
        rfl
      · rw [pairs_mappingOf] at hpair
        obtain ⟨field, hfield, rfl⟩ := List.mem_map.mp hpair
        exact hmerge (List.mem_map.mpr ⟨field, hfield, hkey⟩)
      · rw [pairs_mappingOf, List.map_map]
        exact hdistinct
  · obtain ⟨pair, hpair, heq⟩ := exists_mem_pairs (by rw [length_unpairs, Nat.mul_mod_right]) hchild
    rw [pairs_unpairs] at hpair
    obtain ⟨field, hfield, rfl⟩ := List.mem_map.mp hpair
    rcases heq with rfl | rfl
    · exact written_scalarOf field.1 subtree hsubtree
    · exact h field hfield subtree hsubtree

theorem Written.strictDocument {tree : EventTree} {limits : ParseLimits} (h : tree.Written)
    (hfits : tree.Fits limits) : StrictDocument limits (.around tree) :=
  ⟨⟨rfl, rfl, rfl, rfl, rfl, fun subtree hsubtree => (h subtree hsubtree).bracketed,
    fun subtree hsubtree => (h subtree hsubtree).plain, hfits.nodes, hfits.depth, hfits.scalars,
    fun subtree hsubtree => (h subtree hsubtree).paired⟩,
    fun subtree hsubtree => (h subtree hsubtree).keys⟩

theorem Written.mark_eq {tree : EventTree} (h : tree.Written) :
    ∀ event ∈ tree.serialize, event.mark = ⟨1, 1⟩ := by
  induction tree using EventTree.induction with
  | scalar first =>
      intro event hevent
      obtain rfl := List.mem_singleton.mp hevent
      exact (h _ (self_mem_subtrees _)).unmarked
  | collection kind first children last ih =>
      intro event hevent
      obtain ⟨hfirst, hlast⟩ := (h _ (self_mem_subtrees _)).unmarked
      rw [serialize_collection, List.mem_cons, List.mem_append, List.mem_flatMap,
        List.mem_singleton] at hevent
      rcases hevent with rfl | ⟨child, hchild, hevent⟩ | rfl
      · exact hfirst
      · refine ih child hchild (fun subtree hsubtree => h subtree ?_) event hevent
        rw [subtrees_collection]
        exact List.mem_cons_of_mem _ (List.mem_flatMap.mpr ⟨child, hchild, hsubtree⟩)
      · exact hlast

/-- A document around a written tree stands where a document without marks does. -/
theorem Written.oneBased {tree : EventTree} (h : tree.Written) :
    ∀ event ∈ (DocumentEvents.around tree).serialize, event.mark.OneBased := by
  intro event hevent
  have hmark : event.mark = ⟨1, 1⟩ := by
    simp only [DocumentEvents.serialize, DocumentEvents.around, List.mem_cons, List.mem_append,
      List.not_mem_nil, or_false] at hevent
    rcases hevent with rfl | rfl | hevent | rfl | rfl
    · rfl
    · rfl
    · exact h.mark_eq event hevent
    · rfl
    · rfl
  rw [hmark]
  exact ⟨by decide, by decide⟩

theorem written_optionalField {key : Bytes} {value : Option EventTree}
    (h : ∀ tree, value = some tree → tree.Written) :
    ∀ field ∈ optionalField key value, field.2.Written := by
  intro field hfield
  obtain ⟨tree, htree, rfl⟩ := List.mem_map.mp hfield
  exact h tree (Option.mem_toList.mp htree)

theorem sublist_optionalField (key : Bytes) (value : Option EventTree) :
    ((optionalField key value).map Prod.fst).Sublist [key] := by
  cases value with
  | none => exact List.nil_sublist [key]
  | some tree => exact List.Sublist.refl [key]

/-- The same for a record, some of whose fields may be left out. -/
theorem written_record {fields : List (Bytes × EventTree)} {keys : List Bytes}
    (hkeys : (fields.map Prod.fst).Sublist keys) (hmerge : ascii "<<" ∉ keys)
    (hdistinct : keys.Nodup) (h : ∀ field ∈ fields, field.2.Written) :
    (mappingOf fields).Written :=
  written_mappingOf (fun hmem => hmerge (hkeys.subset hmem)) (hkeys.nodup hdistinct) h

end EventTree

/-! ### Canonical documents are strict -/

theorem SubjectContent.sublist_field (subject : SubjectContent) :
    ([subject.field].map Prod.fst).Sublist subjectKeys := by
  cases subject with
  | package name => exact (List.nil_sublist [ascii "profile"]).cons_cons (ascii "package")
  | profile name => exact (List.Sublist.refl [ascii "profile"]).cons (ascii "package")

theorem SubjectContent.written (subject : SubjectContent) : subject.write.Written := by
  refine written_record subject.sublist_field (by decide) (by decide)
    (List.forall_mem_singleton.mpr ?_)
  cases subject with
  | package name => exact written_scalarOf name
  | profile name => exact written_scalarOf name

theorem written_subjects (subjects : List SubjectContent) : (writeSubjects subjects).Written :=
  written_itemsOf fun subject _ => subject.written

theorem written_program (material : Bytes) : (writeProgram material).Written := by
  refine written_record (List.Sublist.refl programKeys) (by decide) (by decide) ?_
  simp only [List.forall_mem_cons]
  exact ⟨written_scalarOf _, written_scalarOf _, by simp⟩

theorem SourceContent.sublist_required (source : SourceContent) :
    [source.locator.field.1, ascii "name", ascii "sha256"].Sublist
      [ascii "url", ascii "path", ascii "name", ascii "sha256"] := by
  cases source.locator with
  | url locator => exact (List.Sublist.refl _).cons (ascii "path") |>.cons_cons (ascii "url")
  | path locator => exact (List.Sublist.refl _).cons (ascii "url")

theorem SourceContent.sublist_fields (source : SourceContent) :
    (source.fields.map Prod.fst).Sublist
      [ascii "url", ascii "path", ascii "name", ascii "sha256", ascii "unpack"] :=
  source.sublist_required.append
    (sublist_optionalField (ascii "unpack") (writeUnpack source.unpack))

theorem SourceContent.written (source : SourceContent) : source.write.Written := by
  have hunpack : ∀ tree, writeUnpack source.unpack = some tree → tree.Written := by
    intro tree htree
    cases hkind : source.unpack with
    | none =>
        rw [hkind] at htree
        cases htree
    | archive =>
        rw [hkind] at htree
        obtain rfl := Option.some.inj htree
        exact written_scalarOf _
  refine written_record source.sublist_fields (by decide) (by decide) ?_
  unfold SourceContent.fields
  simp only [List.forall_mem_append, List.forall_mem_cons]
  refine ⟨⟨?_, written_scalarOf _, written_scalarOf _, by simp⟩, written_optionalField hunpack⟩
  cases source.locator with
  | url locator => exact written_scalarOf locator
  | path locator => exact written_scalarOf locator

theorem written_actions {α : Type} {write : α → EventTree}
    {actions : List (LifecycleAction × α)} (hdistinct : (actions.map Prod.fst).Nodup)
    (h : ∀ value, (write value).Written) : (writeActions write actions).Written := by
  have hkeys : (actions.map fun entry => (entry.1.name, write entry.2)).map Prod.fst =
      (actions.map Prod.fst).map LifecycleAction.name := by
    rw [List.map_map, List.map_map]
    rfl
  refine written_mappingOf ?_ ?_ fun field hfield => ?_
  · rw [hkeys, List.mem_map]
    rintro ⟨action, -, haction⟩
    cases action <;> exact absurd haction (by decide)
  · rw [hkeys]
    exact hdistinct.map name_injective
  · obtain ⟨entry, -, rfl⟩ := List.mem_map.mp hfield
    exact h entry.2

theorem written_profile (members : List SubjectContent) : (writeProfile members).Written :=
  written_record (List.Sublist.refl [ascii "members"]) (by decide) (by decide)
    (List.forall_mem_singleton.mpr (written_subjects members))

theorem ProfilesContent.written (content : ProfilesContent) : content.write.Written := by
  have hkeys : (content.profiles.map fun profile => (profile.1, writeProfile profile.2)).map
      Prod.fst = content.profiles.map Prod.fst := by
    rw [List.map_map]
    rfl
  refine written_record (List.Sublist.refl [ascii "format", ascii "profiles"]) (by decide)
    (by decide) ?_
  simp only [List.forall_mem_cons]
  refine ⟨written_scalarOf _, written_mappingOf ?_ ?_ fun field hfield => ?_, by simp⟩
  · rw [hkeys]
    exact content.noMerge
  · rw [hkeys]
    exact content.names
  · obtain ⟨profile, -, rfl⟩ := List.mem_map.mp hfield
    exact written_profile profile.2

namespace RecipeContent

variable (content : RecipeContent)

theorem sublist_packageFields : (content.packageFields.map Prod.fst).Sublist
    [ascii "name", ascii "version", ascii "release", ascii "summary", ascii "licenses",
      ascii "description", ascii "homepage"] := by
  have hoptional : ((optionalField (ascii "description") (content.description.map scalarOf) ++
      optionalField (ascii "homepage") (content.homepage.map scalarOf)).map Prod.fst).Sublist
      [ascii "description", ascii "homepage"] := by
    rw [List.map_append]
    exact (sublist_optionalField _ _).append (sublist_optionalField _ _)
  exact (List.Sublist.refl [ascii "name", ascii "version", ascii "release", ascii "summary",
    ascii "licenses"]).append hoptional

theorem written_package : content.writePackage.Written := by
  have htext : ∀ (key : Bytes) (text : Option Bytes),
      ∀ field ∈ optionalField key (text.map scalarOf), field.2.Written := by
    refine fun key text => written_optionalField fun tree htree => ?_
    obtain ⟨value, -, rfl⟩ := Option.map_eq_some_iff.mp htree
    exact written_scalarOf value
  refine written_record content.sublist_packageFields (by decide) (by decide) ?_
  unfold packageFields
  simp only [List.forall_mem_append, List.forall_mem_cons]
  exact ⟨⟨written_scalarOf _, written_scalarOf _, written_scalarOf _, written_scalarOf _,
    written_itemsOf fun _ _ => written_scalarOf _, by simp⟩, htext _ _, htext _ _⟩

theorem written_requirements : content.writeRequirements.Written := by
  refine written_record (List.Sublist.refl requirementKeys) (by decide) (by decide) ?_
  simp only [List.forall_mem_cons]
  exact ⟨written_subjects _, written_subjects _, written_subjects _,
    written_actions content.requirementActions written_subjects, by simp⟩

theorem written_architectures : content.writeArchitectures.Written := by
  refine written_record (List.Sublist.refl architectureKeys) (by decide) (by decide) ?_
  simp only [List.forall_mem_cons]
  exact ⟨written_itemsOf fun _ _ => written_scalarOf _,
    written_itemsOf fun _ _ => written_scalarOf _, by simp⟩

theorem sublist_rootFields : (content.rootFields.map Prod.fst).Sublist
    [ascii "format", ascii "package", ascii "requirements", ascii "sources", ascii "build",
      ascii "lifecycle", ascii "architectures", ascii "check"] :=
  (List.Sublist.refl [ascii "format", ascii "package", ascii "requirements", ascii "sources",
    ascii "build", ascii "lifecycle", ascii "architectures"]).append
    (sublist_optionalField (ascii "check") (content.check.map writeProgram))

theorem written : content.write.Written := by
  have hcheck : ∀ tree, content.check.map writeProgram = some tree → tree.Written := by
    intro tree htree
    obtain ⟨material, -, rfl⟩ := Option.map_eq_some_iff.mp htree
    exact written_program material
  refine written_record content.sublist_rootFields (by decide) (by decide) ?_
  unfold rootFields
  simp only [List.forall_mem_append, List.forall_mem_cons]
  exact ⟨⟨written_scalarOf _, content.written_package, content.written_requirements,
    written_itemsOf fun source _ => source.written, written_program _,
    written_actions content.lifecycleActions written_program, content.written_architectures,
    by simp⟩, written_optionalField hcheck⟩

end RecipeContent

/-! ### Canonical documents read as they were meant -/

theorem isItems_planOf {α β : Type} {Reads : Nat → Node → α → Prop} {write : β → EventTree}
    {value : β × Nat → α}
    (h : ∀ index entry, Reads index (write entry).toNode (value (entry, index)))
    (entries : List β) :
    IsItems Reads (items (entries.map write)).toNode (entries.zipIdx.map value) := by
  refine ⟨rfl, ?_⟩
  rw [children_items, List.zipIdx_map, List.forall₂_map_left_iff, List.forall₂_map_right_iff,
    List.forall₂_same]
  exact fun entry _ => h entry.2 entry.1

theorem isItems_mapOf {α β : Type} {Reads : Nat → Node → α → Prop} {write : β → EventTree}
    {value : β → α} (h : ∀ index entry, Reads index (write entry).toNode (value entry))
    (entries : List β) : IsItems Reads (items (entries.map write)).toNode (entries.map value) := by
  have hvalues : entries.map value = entries.zipIdx.map fun entry => value entry.1 := by
    calc entries.map value = (entries.zipIdx.map Prod.fst).map value := by rw [List.zipIdx_map_fst]
      _ = entries.zipIdx.map fun entry => value entry.1 := List.map_map
  rw [hvalues]
  exact isItems_planOf h entries

theorem isItems_self {α : Type} {Reads : Nat → Node → α → Prop} {write : α → EventTree}
    (h : ∀ index entry, Reads index (write entry).toNode entry) (entries : List α) :
    IsItems Reads (items (entries.map write)).toNode entries := by
  have hitems := isItems_mapOf h entries
  rwa [List.map_id'] at hitems

theorem isEntries_mapOf {α β : Type} {Reads : Node → Node → α → Prop} {key : β → Bytes}
    {write : β → EventTree} {value : β → α}
    (h : ∀ entry, Reads (scalarOf (key entry)).toNode (write entry).toNode (value entry))
    (entries : List β) :
    IsEntries Reads (mappingOf (entries.map fun entry => (key entry, write entry))).toNode
      (entries.map value) := by
  refine ⟨rfl, ?_⟩
  rw [pairs_mappingOf, List.map_map, List.forall₂_map_left_iff, List.forall₂_map_right_iff,
    List.forall₂_same]
  exact fun entry _ => h entry

theorem hasKeys_record {fields : List (Bytes × EventTree)} {keys allowed : List Bytes}
    (hkeys : (fields.map Prod.fst).Sublist keys) (h : ∀ key ∈ keys, key ∈ allowed) :
    (mappingOf fields).toNode.HasKeys allowed :=
  hasKeys_mappingOf fun key hkey => h key (hkeys.subset hkey)

/-- The value of a field that may be left out, between fields of other names. -/
theorem field?_optionalField {before after : List (Bytes × EventTree)} {key : Bytes}
    (value : Option EventTree) (hbefore : key ∉ before.map Prod.fst)
    (hafter : key ∉ after.map Prod.fst) :
    (mappingOf (before ++ (optionalField key value ++ after))).toNode.field? key =
      value.map toNode := by
  have hother : ∀ {fields : List (Bytes × EventTree)}, key ∉ fields.map Prod.fst →
      fields.find? (·.1 = key) = none := by
    intro fields hfields
    rw [List.find?_eq_none]
    intro field hfield hname
    exact hfields (List.mem_map.mpr ⟨field, hfield, by simpa using hname⟩)
  rw [field?_mappingOf, List.find?_append, hother hbefore, Option.none_or]
  cases value with
  | none =>
      change (after.find? (·.1 = key)).map _ = none
      rw [hother hafter]
      rfl
  | some tree =>
      change (((key, tree) :: after).find? (·.1 = key)).map _ = some tree.toNode
      rw [List.find?_cons_of_pos (by simp)]
      rfl

theorem isSubject_plan (subject : SubjectContent) :
    IsSubject Core.recording subject.write.toNode subject.plan := by
  have hkeys : subject.write.toNode.HasKeys subjectKeys :=
    hasKeys_record subject.sublist_field fun _ => id
  cases subject with
  | package name => exact .package name hkeys ⟨_, rfl, rfl, rfl⟩ rfl rfl
  | profile name => exact .profile name hkeys rfl ⟨_, rfl, rfl, rfl⟩ rfl

theorem isProgram_plan (material : Bytes) :
    IsProgram Core.recording (writeProgram material).toNode (.posixShell, material) :=
  ⟨hasKeys_record (List.Sublist.refl programKeys) fun _ => id, ⟨_, rfl, rfl, rfl⟩,
    material, ⟨_, rfl, rfl, rfl⟩, rfl⟩

theorem isRequirementSequence_plan (name : ScopeName) (subjects : List SubjectContent) :
    IsRequirementSequence Core.recording context name.path (name.scope Core.recording)
      (writeSubjects subjects).toNode (planRequirements context.origin name subjects) := by
  refine ⟨name, scope_recording name, isItems_planOf (fun index subject => ?_) subjects⟩
  exact ⟨subject.plan, _, isSubject_plan subject, rfl, rfl⟩

theorem isLifecycle_plan (actions : List (LifecycleAction × Bytes)) :
    IsLifecycle Core.recording (writeActions writeProgram actions).toNode
      (actions.map fun entry => (entry.1, .posixShell, entry.2)) := by
  refine isEntries_mapOf (fun entry => ?_) actions
  exact ⟨entry.1, (.posixShell, entry.2), rfl, isProgram_plan entry.2, rfl⟩

theorem isArchitectureList_plan (names : List Bytes) :
    IsArchitectureList Core.recording (items (names.map scalarOf)).toNode names :=
  isItems_self (fun _ name => ⟨name, ⟨rfl, rfl⟩, rfl⟩) names

/-- A key that no field in front and none behind has. -/
theorem notMem_keys {fields : List (Bytes × EventTree)} {keys : List Bytes} {key : Bytes}
    (hkeys : (fields.map Prod.fst).Sublist keys) (h : key ∉ keys) : key ∉ fields.map Prod.fst :=
  fun hmem => h (hkeys.subset hmem)

theorem isSource_plan (source : SourceContent) :
    IsSource Core.recording source.write.toNode source.plan := by
  have hkeys := hasKeys_record source.sublist_fields (by decide : ∀ key ∈ _, key ∈ sourceKeys)
  have hunpack : IsOptional IsUnpack .none (source.write.toNode.field? (ascii "unpack"))
      source.unpack := by
    have hfield : source.write.toNode.field? (ascii "unpack") =
        (writeUnpack source.unpack).map toNode := by
      rw [SourceContent.write, SourceContent.fields, ← List.append_nil (optionalField _ _)]
      refine field?_optionalField _ ?_ List.not_mem_nil
      exact notMem_keys (source.sublist_required) (by decide)
    rw [hfield]
    cases source.unpack with
    | none => rfl
    | archive => exact ⟨⟨rfl, rfl⟩, rfl⟩
  obtain ⟨locator, name, sha256, unpack⟩ := source
  cases locator with
  | url locator =>
      have hpath : (SourceContent.write ⟨.url locator, name, sha256, unpack⟩).toNode.field?
          (ascii "path") = none := by
        cases unpack <;> rfl
      exact ⟨hkeys, name, sha256, (.sha256, sha256), unpack, ⟨_, rfl, rfl, rfl⟩, ⟨_, rfl, rfl, rfl⟩,
        rfl, hunpack, .url locator ⟨_, rfl, rfl, rfl⟩ hpath rfl⟩
  | path locator =>
      have hurl : (SourceContent.write ⟨.path locator, name, sha256, unpack⟩).toNode.field?
          (ascii "url") = none := by
        cases unpack <;> rfl
      exact ⟨hkeys, name, sha256, (.sha256, sha256), unpack, ⟨_, rfl, rfl, rfl⟩, ⟨_, rfl, rfl, rfl⟩,
        rfl, hunpack, .path locator hurl ⟨_, rfl, rfl, rfl⟩ rfl⟩

namespace RecipeContent

variable (content : RecipeContent)

theorem isOptionalText_plan {found : Option Node} {text : Option Bytes}
    (h : found = (text.map scalarOf).map toNode) : IsOptional IsOptionalText none found text := by
  rw [h]
  cases text with
  | none => rfl
  | some value => exact ⟨value, ⟨rfl, rfl⟩, rfl⟩

theorem field?_description : content.writePackage.toNode.field? (ascii "description") =
    (content.description.map scalarOf).map toNode := by
  refine field?_optionalField _ ?_ ?_
  · exact notMem_keys (List.Sublist.refl [ascii "name", ascii "version", ascii "release",
      ascii "summary", ascii "licenses"]) (by decide)
  · exact notMem_keys (sublist_optionalField (ascii "homepage") _) (by decide)

theorem field?_homepage : content.writePackage.toNode.field? (ascii "homepage") =
    (content.homepage.map scalarOf).map toNode := by
  have hfields : content.packageFields = ([(ascii "name", scalarOf content.name),
      (ascii "version", scalarOf content.version),
      (ascii "release", scalarOf (decimal content.release.toNat)),
      (ascii "summary", scalarOf content.summary),
      (ascii "licenses", items (content.licenses.map scalarOf))] ++
      optionalField (ascii "description") (content.description.map scalarOf)) ++
      (optionalField (ascii "homepage") (content.homepage.map scalarOf) ++ []) := by
    rw [packageFields, List.append_assoc, List.append_nil]
  rw [writePackage, hfields]
  refine field?_optionalField _ (notMem_keys ?_ (by decide :
    ascii "homepage" ∉ [ascii "name", ascii "version", ascii "release", ascii "summary",
      ascii "licenses"] ++ [ascii "description"])) List.not_mem_nil
  rw [List.map_append]
  exact (List.Sublist.refl _).append (sublist_optionalField _ _)

theorem isPackage_plan :
    IsRelease Core.recording content.writePackage.toNode
        (content.name, content.version, content.release) ∧
      IsMetadata Core.recording content.writePackage.toNode
        (content.summary, content.description, content.homepage, content.licenses) := by
  have hkeys := hasKeys_record content.sublist_packageFields
    (by decide : ∀ key ∈ _, key ∈ packageKeys)
  constructor
  · exact ⟨content.name, content.version, content.release, ⟨hkeys, ⟨_, rfl, rfl, rfl⟩,
      ⟨_, rfl, rfl, rfl⟩, _, ⟨_, rfl, rfl, rfl⟩, content.positive, rfl⟩, rfl⟩
  · exact ⟨content.summary, content.description, content.homepage, content.licenses,
      ⟨⟨_, rfl, rfl, rfl⟩, isOptionalText_plan content.field?_description,
        isOptionalText_plan content.field?_homepage, _, rfl,
        isItems_self (fun _ _ => ⟨rfl, rfl⟩) content.licenses⟩, rfl⟩

theorem isLifecycleRequirements_plan :
    IsLifecycleRequirements Core.recording context
      (childPath (ascii "requirements") (ascii "lifecycle"))
      (writeActions writeSubjects content.lifecycleRequirements).toNode
      (content.fields context.origin).requirements.lifecycle := by
  refine isEntries_mapOf (fun block => ?_) content.lifecycleRequirements
  refine ⟨block.1, rfl, ?_⟩
  rw [childPath_lifecycle]
  exact isRequirementSequence_plan (.lifecycle block.1) block.2

theorem isRequirements_plan :
    IsRequirements Core.recording context (ascii "requirements") content.writeRequirements.toNode
      (content.fields context.origin).requirements where
  keys := hasKeys_record (List.Sublist.refl requirementKeys) fun _ => id
  build := isRequirementSequence_plan .build content.buildRequirements
  run := isRequirementSequence_plan .run content.runRequirements
  check := isRequirementSequence_plan .check content.checkRequirements
  lifecycle := content.isLifecycleRequirements_plan

theorem isRecipe_plan : IsRecipe Core.recording context content.write.toNode
    (content.fields context.origin) where
  keys := hasKeys_record content.sublist_rootFields (by decide)
  format := ⟨_, rfl, rfl, rfl⟩
  package := ⟨_, rfl, rfl, content.isPackage_plan.1, content.isPackage_plan.2⟩
  requirements := ⟨_, rfl, content.isRequirements_plan⟩
  sources := ⟨_, rfl, isItems_mapOf (fun _ => isSource_plan) content.sources⟩
  build := ⟨_, rfl, isProgram_plan content.build⟩
  check := by
    have hfield : content.write.toNode.field? (ascii "check") =
        (content.check.map writeProgram).map toNode := by
      rw [write, rootFields, ← List.append_nil (optionalField _ _)]
      refine field?_optionalField _ ?_ List.not_mem_nil
      exact notMem_keys (List.Sublist.refl [ascii "format", ascii "package",
        ascii "requirements", ascii "sources", ascii "build", ascii "lifecycle",
        ascii "architectures"]) (by decide)
    rw [hfield, fields]
    cases content.check with
    | none => rfl
    | some material => exact ⟨(.posixShell, material), isProgram_plan material, rfl⟩
  lifecycle := isLifecycle_plan content.lifecycle
  architectures := ⟨hasKeys_record (List.Sublist.refl architectureKeys) fun _ => id,
    content.buildArchitectures, content.targetArchitectures,
    isArchitectureList_plan content.buildArchitectures,
    isArchitectureList_plan content.targetArchitectures, rfl⟩
  provenance := rfl

end RecipeContent

theorem isMembers_plan (name : Bytes) (members : List SubjectContent) :
    IsMembers Core.recording context name (writeProfile members).toNode
      (planMembers context.origin name members) := by
  refine ⟨hasKeys_record (List.Sublist.refl [ascii "members"]) fun _ => id, _, rfl,
    isItems_planOf (fun index subject => ?_) members⟩
  exact ⟨subject.plan, _, isSubject_plan subject, rfl, rfl⟩

theorem ProfilesContent.isProfiles_plan (content : ProfilesContent) :
    IsProfiles Core.recording context content.write.toNode (content.plan context.origin) where
  keys := hasKeys_record (List.Sublist.refl [ascii "format", ascii "profiles"]) fun _ => id
  format := ⟨_, rfl, rfl, rfl⟩
  profiles := by
    refine ⟨_, rfl, isEntries_mapOf (fun profile => ?_) content.profiles⟩
    exact ⟨_, _, _, rfl, rfl, isMembers_plan profile.1 profile.2, rfl⟩

/-! ### Canonical documents in any presentation -/

variable {input : Input} {limits : ParseLimits}

/-- What is yielded by a provider that has these events only is yielded by every provider that
begins with them. -/
theorem Provider.Yields.of_cut {provider : Provider} {events list : List YamlEvent}
    {byteLength : Nat} {failed : ProviderFailure} {index : Nat} (hyields : provider.Yields 0 events)
    (h : (Input.cut byteLength events failed).provider.Yields index list) :
    provider.Yields index list := by
  induction list generalizing index with
  | nil => trivial
  | cons event rest ih =>
      refine ⟨?_, ih h.2⟩
      have hevent := h.1
      by_cases hindex : index < events.length
      · have hget := hyields.get hindex
        rw [Nat.zero_add] at hget
        rw [hget, ← hevent]
        simp only [Input.cut, List.getElem?_eq_getElem hindex]
      · rw [Input.provider_cut (Nat.le_of_not_lt hindex)] at hevent
        cases hevent

theorem Input.shown_cut {events events' : List YamlEvent} {byteLength : Nat}
    {failed : ProviderFailure} (h : List.Forall₂ YamlEvent.Restyled events events')
    (hmarks : ∀ event ∈ events, event.mark.OneBased)
    (hmarks' : ∀ event ∈ events', event.mark.OneBased) :
    (Input.cut byteLength events failed).Shown (Input.cut byteLength events' failed) := by
  have hmem : ∀ {events : List YamlEvent} (call : Nat) (event : YamlEvent),
      (Input.cut byteLength events failed).provider call = .ok event → event ∈ events := by
    intro events call event hevent
    by_cases hcall : call < events.length
    · simp only [Input.cut, List.getElem?_eq_getElem hcall] at hevent
      rw [← Except.ok.inj hevent]
      exact List.getElem_mem hcall
    · rw [Input.provider_cut (Nat.le_of_not_lt hcall)] at hevent
      cases hevent
  refine ⟨⟨rfl, fun call => ?_⟩, fun call event hevent => hmarks event (hmem call event hevent),
    fun call event hevent => hmarks' event (hmem call event hevent)⟩
  by_cases hcall : call < events.length
  · have hcall' : call < events'.length := h.length_eq ▸ hcall
    simp only [Input.cut, List.getElem?_eq_getElem hcall, List.getElem?_eq_getElem hcall']
    exact Agrees.ok ((List.forall₂_iff_get.mp h).2 call hcall hcall')
  · have hcall' : events'.length ≤ call := h.length_eq ▸ Nat.le_of_not_lt hcall
    rw [Input.provider_cut (Nat.le_of_not_lt hcall), Input.provider_cut hcall']
    exact Agrees.error (Exception.SameVerdict.refl _)

/-- A parser receives the tree of a canonical document, however it is presented. -/
theorem documentOutcome_presented {tree : EventTree} (origin : SourceOrigin)
    (hwritten : tree.Written) (hpresents : Presents input limits tree) :
    ∃ root, documentOutcome input origin limits = .ok root ∧
      Matched BothOneBased tree.toNode root := by
  obtain ⟨hbytes, hfits, events, hyields, hrestyled, hmarks⟩ := hpresents
  have hcanonical : documentOutcome (.cut input.byteLength (DocumentEvents.around tree).serialize
      .badAlloc) origin limits = .ok tree.toNode :=
    documentOutcome_eq_ok_iff_strict.mpr
      ⟨hbytes, .around tree, hwritten.strictDocument hfits, Input.yields_cut _, rfl⟩
  have hshown : (Input.cut input.byteLength (DocumentEvents.around tree).serialize .badAlloc).Shown
      (Input.cut input.byteLength events .badAlloc) :=
    Input.shown_cut hrestyled hwritten.oneBased hmarks
  have hagrees := @agrees_documentOutcome _ _ origin origin limits hshown
  rw [hcanonical] at hagrees
  obtain ⟨root, hroot, hmatched⟩ := hagrees.exists_of_ok
  obtain ⟨-, document, hstrict, hcut, htree⟩ := documentOutcome_eq_ok_iff_strict.mp hroot
  exact ⟨root, documentOutcome_eq_ok_iff_strict.mpr
    ⟨hbytes, document, hstrict, hyields.of_cut hcut, htree⟩, hmatched⟩

/-- A document at other marks, with every scalar tagged as a string. -/
def EventTree.retagged (byteLength : Nat) (tree : EventTree) : Input :=
  .cut byteLength ((DocumentEvents.around tree).serialize.map YamlEvent.retagged) .badAlloc

theorem presents_retagged {tree : EventTree} {byteLength : Nat}
    (hbytes : byteLength ≤ limits.maximumDocumentBytes) (hfits : tree.Fits limits)
    (htags : ∀ event ∈ (DocumentEvents.around tree).serialize, event.tag = []) :
    Presents (tree.retagged byteLength) limits tree := by
  refine ⟨hbytes, hfits, _, Input.yields_cut _, ?_, fun event hevent => ?_⟩
  · exact List.forall₂_map_right_iff.mpr
      (List.forall₂_same.mpr fun event hevent => YamlEvent.restyled_retagged (htags event hevent))
  · obtain ⟨spelled, -, rfl⟩ := List.mem_map.mp hevent
    have hmark : spelled.retagged.mark = ⟨7, 9⟩ := rfl
    rw [hmark]
    exact ⟨by decide, by decide⟩

theorem relocatable_recording : Relocatable Core.recording where
  provenance _ _ _ _ _ _ _ _ _ _ _ := ⟨fun _ => ⟨_, rfl⟩, fun _ => ⟨_, rfl⟩⟩
  requirement _ _ _ _ _ := ⟨fun _ => ⟨_, rfl⟩, fun _ => ⟨_, rfl⟩⟩
  member _ _ _ _ := ⟨fun _ => ⟨_, rfl⟩, fun _ => ⟨_, rfl⟩⟩
  profile _ _ _ _ _ _ _ := ⟨fun _ => ⟨_, rfl⟩, fun _ => ⟨_, rfl⟩⟩
  recipe _ _ _ _ _ _ _ _ _ _ _ _ _ := ⟨fun _ => ⟨_, rfl⟩, fun _ => ⟨_, rfl⟩⟩

/-! ### Round trips -/

/-- **What is written down is what is read.** A parser that is given the canonical document of a
recipe, in whatever presentation within the ceilings, reads the plan of the recipe, apart from
labels, lines and columns; and this is what every `libpkgsource` is asked for whose scope
constructors succeed. -/
theorem recipe_round_trip (content : RecipeContent) (context : Context) (order : EvaluationOrder)
    (input : Input) (limits : ParseLimits) (hpresents : Presents input limits content.write) :
    ∃ plan, parseRecipeYaml Core.recording context order input limits = .ok plan ∧
      RecipeUpTo Core.recording (SiteRelocated Core.recording) (content.plan context.origin) plan ∧
      ∀ core : Core, ScopesAccepted core → ∀ declaration,
        parseRecipeYaml core context order input limits = .ok declaration ↔
          interpretRecipe core plan = .ok declaration := by
  obtain ⟨root, hroot, hmatched⟩ :=
    documentOutcome_presented context.origin content.written hpresents
  have hcanonical : recipeValue Core.recording context order content.write.toNode =
      .ok (content.plan context.origin) :=
    (recipeValue_eq_ok_iff hmatched.left).mpr ⟨_, content.isRecipe_plan, rfl⟩
  have hagrees := @agrees_recipeValue Core.recording context context
    relocatable_recording.correspondence _ _ hmatched order
  rw [hcanonical] at hagrees
  have hparsed : ∀ core : Core, parseRecipeYaml core context order input limits =
      recipeValue core context order root := fun core => bind_of_ok hroot
  obtain ⟨plan, hplan, hupTo⟩ := hagrees.exists_of_ok
  refine ⟨plan, (hparsed _).trans hplan, hupTo, fun core hscopes declaration => ?_⟩
  rw [hparsed, recipeValue_planned hscopes order order hmatched.right, hplan]
  simp only [Except.ok.injEq, exists_eq_left']

def writtenRecipe : RecipeContent where
  name := ascii "demo"
  version := ascii "1.0"
  release := 12
  summary := ascii "A demo"
  description := none
  homepage := some (ascii "https://demo")
  licenses := [ascii "MIT"]
  sources := [⟨.path (ascii "demo.tar"), ascii "demo", ascii "00", .archive⟩]
  build := ascii "make"
  check := none
  buildRequirements := [.package (ascii "cc"), .profile (ascii "@base")]
  runRequirements := []
  checkRequirements := []
  lifecycleRequirements := [(.preRemove, [.package (ascii "init")])]
  lifecycle := [(.preRemove, ascii "stop"), (.postInstall, ascii "start")]
  buildArchitectures := []
  targetArchitectures := [ascii "x86_64"]
  positive := by decide
  filled := by decide
  requirementActions := by decide
  lifecycleActions := by decide

theorem fits_writtenRecipe : writtenRecipe.write.Fits {} :=
  ⟨by decide, by decide, by decide⟩

theorem recipe_round_trip_written : ∃ plan,
    parseRecipeYaml Core.recording ⟨⟨ascii "recipe.yaml"⟩, false⟩ .textual
        (writtenRecipe.write.retagged 600) {} = .ok plan ∧
      RecipeUpTo Core.recording (SiteRelocated Core.recording)
        (writtenRecipe.plan ⟨ascii "recipe.yaml"⟩) plan := by
  obtain ⟨plan, hplan, hupTo, -⟩ := recipe_round_trip writtenRecipe
    ⟨⟨ascii "recipe.yaml"⟩, false⟩ .textual (writtenRecipe.write.retagged 600) {}
    (presents_retagged (by decide) fits_writtenRecipe (by decide))
  exact ⟨plan, hplan, hupTo⟩

/-- The same for profiles. -/
theorem profiles_round_trip (content : ProfilesContent) (context : Context) (input : Input)
    (limits : ParseLimits) (hpresents : Presents input limits content.write) :
    ∃ plans, parseProfilesYaml Core.recording context input limits = .ok plans ∧
      List.Forall₂ (ProfileUpTo Core.recording (SiteRelocated Core.recording))
        (content.plan context.origin) plans ∧
      ∀ core : Core, ∀ declarations,
        parseProfilesYaml core context input limits = .ok declarations ↔
          interpretProfiles core plans = .ok declarations := by
  obtain ⟨root, hroot, hmatched⟩ :=
    documentOutcome_presented context.origin content.written hpresents
  have hcanonical : profilesValue Core.recording context content.write.toNode =
      .ok (content.plan context.origin) :=
    (profilesValue_eq_ok_iff hmatched.left).mpr content.isProfiles_plan
  have hagrees := @agrees_profilesValue Core.recording context context
    relocatable_recording.correspondence _ _ hmatched
  rw [hcanonical] at hagrees
  have hparsed : ∀ core : Core, parseProfilesYaml core context input limits =
      profilesValue core context root := fun core => bind_of_ok hroot
  obtain ⟨plans, hplans, hupTo⟩ := hagrees.exists_of_ok
  refine ⟨plans, (hparsed _).trans hplans, hupTo, fun core declarations => ?_⟩
  rw [hparsed, profilesValue_eq_ok_iff hmatched.right, isProfiles_planned]
  simp only [← profilesValue_eq_ok_iff hmatched.right, hplans, Except.ok.injEq, exists_eq_left']

def writtenProfiles : ProfilesContent where
  profiles := [(ascii "desktop", [.package (ascii "xorg"), .profile (ascii "@base")]),
    (ascii "base", [])]
  noMerge := by decide
  names := by decide

theorem fits_writtenProfiles : writtenProfiles.write.Fits {} :=
  ⟨by decide, by decide, by decide⟩

theorem profiles_round_trip_written : ∃ plans,
    parseProfilesYaml Core.recording ⟨⟨ascii "profiles.yaml"⟩, false⟩
        (writtenProfiles.write.retagged 200) {} = .ok plans ∧
      List.Forall₂ (ProfileUpTo Core.recording (SiteRelocated Core.recording))
        (writtenProfiles.plan ⟨ascii "profiles.yaml"⟩) plans := by
  obtain ⟨plans, hplans, hupTo, -⟩ := profiles_round_trip writtenProfiles
    ⟨⟨ascii "profiles.yaml"⟩, false⟩ (writtenProfiles.write.retagged 200) {}
    (presents_retagged (by decide) fits_writtenProfiles (by decide))
  exact ⟨plans, hplans, hupTo⟩

end PkgsourceYaml
