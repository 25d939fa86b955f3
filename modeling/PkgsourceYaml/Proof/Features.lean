import PkgsourceYaml.Libyaml
import PkgsourceYaml.Proof.Document
import PkgsourceYaml.Proof.Envelope

/-!
# Excluded features, from the native events on

The libyaml provider copies a null pointer and a pointer to an empty string into the same empty
`std::string`, and the document layer takes that string to mean that nothing is there. Excluded
features are therefore kept out exactly where no anchor or tag points to an empty string.
-/

namespace PkgsourceYaml

variable {limits : ParseLimits}

/-! ### Normalized events -/

/-- The event is no alias, declares nothing, and carries no anchor and no tag but a standard one. -/
structure YamlEvent.FeatureFree (event : YamlEvent) : Prop where
  notAlias : event.kind ≠ .alias
  directives : event.kind = .documentStart → event.hasDirectives = false
  node : ∀ kind, event.kind.nodeKind? = some kind →
    event.anchor = [] ∧ (event.tag = [] ∨ event.tag ∈ EventTree.standardTags kind)

theorem featureFree_of_kind {event : YamlEvent} (halias : event.kind ≠ .alias)
    (hdocument : event.kind ≠ .documentStart) (hnode : event.kind.nodeKind? = none) :
    event.FeatureFree :=
  ⟨halias, fun h => absurd h hdocument, fun kind h => by rw [hnode] at h; cases h⟩

theorem featureFree_first {tree : EventTree} (hbracketed : tree.Bracketed) (hplain : tree.Plain) :
    tree.first.FeatureFree := by
  have hkind : tree.first.kind.nodeKind? = some tree.kind ∧ tree.first.kind ≠ .alias ∧
      tree.first.kind ≠ .documentStart := by
    cases tree with
    | scalar event =>
        change event.kind = .scalar at hbracketed
        simp [EventTree.first, EventTree.kind, hbracketed, YamlEventKind.nodeKind?]
    | collection kind first children last =>
        rcases hbracketed with ⟨rfl, hfirst, -⟩ | ⟨rfl, hfirst, -⟩ <;>
          simp [EventTree.first, EventTree.kind, hfirst, YamlEventKind.nodeKind?]
  obtain ⟨hnode, halias, hdocument⟩ := hkind
  refine ⟨halias, fun h => absurd h hdocument, fun kind h => ?_⟩
  rw [hnode, Option.some.injEq] at h
  subst h
  exact hplain

theorem featureFree_last {kind : NodeKind} {first last : YamlEvent} {children : List EventTree}
    (hbracketed : (EventTree.collection kind first children last).Bracketed) :
    last.FeatureFree := by
  rcases hbracketed with ⟨-, -, hlast⟩ | ⟨-, -, hlast⟩
  · exact featureFree_of_kind (by simp [hlast]) (by simp [hlast]) (by rw [hlast]; rfl)
  · exact featureFree_of_kind (by simp [hlast]) (by simp [hlast]) (by rw [hlast]; rfl)

theorem featureFree_tree (tree : EventTree)
    (hbracketed : ∀ subtree ∈ tree.subtrees, subtree.Bracketed)
    (hplain : ∀ subtree ∈ tree.subtrees, subtree.Plain) :
    ∀ event ∈ tree.serialize, event.FeatureFree := by
  induction tree using EventTree.induction with
  | scalar event =>
      intro found hfound
      obtain rfl := List.mem_singleton.mp hfound
      have hself := EventTree.self_mem_subtrees (.scalar found)
      exact featureFree_first (hbracketed _ hself) (hplain _ hself)
  | collection kind first children last ih =>
      have hself := EventTree.self_mem_subtrees (.collection kind first children last)
      intro event hevent
      rw [EventTree.serialize_collection, List.mem_cons, List.mem_append, List.mem_flatMap,
        List.mem_singleton] at hevent
      rcases hevent with rfl | ⟨child, hchild, hevent⟩ | rfl
      · exact featureFree_first (hbracketed _ hself) (hplain _ hself)
      · have hsubset : ∀ subtree ∈ child.subtrees,
            subtree ∈ (EventTree.collection kind first children last).subtrees := by
          intro subtree hsubtree
          rw [EventTree.subtrees_collection]
          exact List.mem_cons_of_mem _ (List.mem_flatMap.mpr ⟨child, hchild, hsubtree⟩)
        exact ih child hchild (fun subtree h => hbracketed subtree (hsubset subtree h))
          (fun subtree h => hplain subtree (hsubset subtree h)) event hevent
      · exact featureFree_last (hbracketed _ hself)

theorem featureFree_document {document : DocumentEvents} (h : SpelledDocument limits document) :
    ∀ event ∈ document.serialize, event.FeatureFree := by
  intro event hevent
  simp only [DocumentEvents.serialize, List.mem_cons, List.mem_append, List.not_mem_nil,
    or_false] at hevent
  rcases hevent with rfl | rfl | hevent | rfl | rfl
  · exact featureFree_of_kind (by simp [h.streamStart]) (by simp [h.streamStart])
      (by rw [h.streamStart]; rfl)
  · refine ⟨by simp [h.documentStart], fun _ => h.directives, fun kind hkind => ?_⟩
    rw [h.documentStart] at hkind
    cases hkind
  · exact featureFree_tree document.root h.bracketed h.plain event hevent
  · exact featureFree_of_kind (by simp [h.documentEnd]) (by simp [h.documentEnd])
      (by rw [h.documentEnd]; rfl)
  · exact featureFree_of_kind (by simp [h.streamEnd]) (by simp [h.streamEnd])
      (by rw [h.streamEnd]; rfl)

/-! ### Native events -/

def PointsToEmpty (pointer : Option CString) : Prop :=
  ∃ text, pointer = some text ∧ text.bytes = []

/-- A null anchor, and a tag that is null or a standard one of the node's kind. -/
def FreeNode (kind : NodeKind) (anchor tag : Option CString) : Prop :=
  anchor = none ∧ (tag = none ∨ ∃ text, tag = some text ∧ text.bytes ∈ EventTree.standardTags kind)

/-- What the strict subset promises of a native event. -/
def NativeData.FeatureFree : NativeData → Prop
  | .documentStart versionDirective tagDirectives => versionDirective = none ∧ tagDirectives = []
  | .alias _ => False
  | .scalar anchor tag _ => FreeNode .scalar anchor tag
  | .sequenceStart anchor tag => FreeNode .sequence anchor tag
  | .mappingStart anchor tag => FreeNode .mapping anchor tag
  | _ => True

def NativeData.FlattensEmpty : NativeData → Prop
  | .scalar anchor tag _ => PointsToEmpty anchor ∨ PointsToEmpty tag
  | .sequenceStart anchor tag => PointsToEmpty anchor ∨ PointsToEmpty tag
  | .mappingStart anchor tag => PointsToEmpty anchor ∨ PointsToEmpty tag
  | _ => False

theorem copyYamlString_eq_nil_iff {pointer : Option CString} :
    copyYamlString pointer = [] ↔ pointer = none ∨ PointsToEmpty pointer := by
  cases pointer with
  | none => simp [copyYamlString]
  | some text => simp [copyYamlString, PointsToEmpty]

theorem nil_notMem_standardTags (kind : NodeKind) : [] ∉ EventTree.standardTags kind := by
  cases kind <;> decide

/-- A node is free of features before copying exactly when its copy is and nothing was flattened. -/
theorem freeNode_iff (kind : NodeKind) (anchor tag : Option CString) :
    FreeNode kind anchor tag ↔
      (copyYamlString anchor = [] ∧ (copyYamlString tag = [] ∨
        copyYamlString tag ∈ EventTree.standardTags kind)) ∧
      ¬(PointsToEmpty anchor ∨ PointsToEmpty tag) := by
  have hnil := nil_notMem_standardTags kind
  constructor
  · rintro ⟨rfl, rfl | ⟨text, rfl, htext⟩⟩
    · exact ⟨⟨rfl, Or.inl rfl⟩, by simp [PointsToEmpty]⟩
    · refine ⟨⟨rfl, Or.inr htext⟩, ?_⟩
      rintro (⟨other, hother, -⟩ | ⟨other, hother, hempty⟩)
      · cases hother
      · obtain rfl : text = other := Option.some.inj hother
        rw [hempty] at htext
        exact hnil htext
  · rintro ⟨⟨hanchor, htag⟩, hflat⟩
    rw [not_or] at hflat
    refine ⟨(copyYamlString_eq_nil_iff.mp hanchor).resolve_right hflat.1, ?_⟩
    rcases htag with htag | htag
    · exact Or.inl ((copyYamlString_eq_nil_iff.mp htag).resolve_right hflat.2)
    · cases tag with
      | none => exact absurd htag hnil
      | some text => exact Or.inr ⟨text, rfl, htag⟩

/-- A native event keeps the promise of the strict subset exactly when its normalization does and no
pointer was flattened. -/
theorem featureFree_iff {document : Bytes} {native : NativeEvent} {event : YamlEvent}
    (h : normalize document (.event native) = .ok event) :
    native.data.FeatureFree ↔ event.FeatureFree ∧ ¬native.data.FlattensEmpty := by
  obtain ⟨mark, data⟩ := native
  have hnode : ∀ (kind : NodeKind) (anchor tag : Option CString) (found : YamlEvent),
      found.kind ≠ .alias → found.kind ≠ .documentStart → found.kind.nodeKind? = some kind →
      found.anchor = copyYamlString anchor → found.tag = copyYamlString tag →
      (FreeNode kind anchor tag ↔
        found.FeatureFree ∧ ¬(PointsToEmpty anchor ∨ PointsToEmpty tag)) := by
    intro kind anchor tag found halias hdocument hkind hanchor htag
    rw [freeNode_iff, ← hanchor, ← htag]
    refine and_congr_left fun _ => ⟨fun hfree => ?_, fun hfree => hfree.node kind hkind⟩
    refine ⟨halias, fun hstart => absurd hstart hdocument, fun other hother => ?_⟩
    rw [hkind, Option.some.injEq] at hother
    exact hother ▸ hfree
  have hplain : ∀ found : YamlEvent, found.kind ≠ .alias → found.kind ≠ .documentStart →
      found.kind.nodeKind? = none → (True ↔ found.FeatureFree ∧ ¬False) :=
    fun found halias hdocument hkind =>
      ⟨fun _ => ⟨featureFree_of_kind halias hdocument hkind, id⟩, fun _ => trivial⟩
  cases data with
  | noEvent => cases h
  | documentStart versionDirective tagDirectives =>
      obtain rfl := Except.ok.inj h
      constructor
      · rintro ⟨rfl, rfl⟩
        exact ⟨⟨by simp [copyMembers], fun _ => rfl, fun kind hkind => by cases hkind⟩, id⟩
      · rintro ⟨hfree, -⟩
        have hdirectives := hfree.directives rfl
        simpa [copyMembers, NativeData.FeatureFree] using hdirectives
  | _ =>
      obtain rfl := Except.ok.inj h
      first
        | exact hnode _ _ _ _ (by simp [copyMembers]) (by simp [copyMembers]) rfl rfl rfl
        | exact hplain _ (by simp [copyMembers]) (by simp [copyMembers]) rfl
        | exact ⟨fun hfree => hfree.elim, fun hfree => hfree.1.notAlias rfl⟩

/-! ### Accepted runs -/

section

variable {origin : SourceOrigin} {byteLength : Nat} {native : Nat → NativeResult}

/-- Every event an accepting run consumed was a native event without excluded features. -/
def FeaturesExcluded (origin : SourceOrigin) (byteLength : Nat) (native : Nat → NativeResult)
    (limits : ParseLimits) : Prop :=
  (∃ root, documentOutcome (libyamlInput origin byteLength native) origin limits = .ok root) →
    ∀ index < (finalState (libyamlInput origin byteLength native) origin limits).calls,
      ∃ event, native index = .event event ∧ event.data.FeatureFree

theorem native_of_yields {events : List YamlEvent}
    (hyields : (libyamlInput origin byteLength native).provider.Yields 0 events) {index : Nat}
    (hindex : index < events.length) :
    ∃ event, native index = .event event ∧
      normalize origin.document (.event event) = .ok events[index] := by
  have hget := hyields.get hindex
  rw [Nat.zero_add] at hget
  change normalize origin.document (native index) = .ok events[index] at hget
  cases hnative : native index with
  | failed error problemMark problem =>
      rw [hnative] at hget
      cases hget
  | event event => exact ⟨event, rfl, hnative ▸ hget⟩

theorem finalState_of_runDocument {input : Input} {root : Node} {after : ParseState}
    (h : runDocument input origin limits = .ok root after) :
    finalState input origin limits = after := by
  rw [finalState, h]

/-- On a strict document, the features are excluded from the native events exactly when no node
event of its serialization has an anchor or tag that points to an empty string. -/
theorem featuresExcluded_iff_of_strict {document : DocumentEvents}
    (hbytes : byteLength ≤ limits.maximumDocumentBytes)
    (hstrict : StrictDocument limits document)
    (hyields : (libyamlInput origin byteLength native).provider.Yields 0 document.serialize) :
    FeaturesExcluded origin byteLength native limits ↔
      ∀ index < document.serialize.length, ∀ event, native index = .event event →
        ¬event.data.FlattensEmpty := by
  obtain ⟨after, hrun, hcalls⟩ := runDocument_of_strict origin hbytes hstrict hyields
  have haccepted := documentOutcome_eq_ok_iff.mpr ⟨after, hrun⟩
  have hfree := featureFree_document hstrict.toSpelledDocument
  rw [FeaturesExcluded, finalState_of_runDocument hrun, hcalls]
  constructor
  · intro hexcluded index hindex event hevent
    obtain ⟨found, hfound, hfoundFree⟩ := hexcluded ⟨_, haccepted⟩ index hindex
    obtain ⟨other, hother, hnormalize⟩ := native_of_yields hyields hindex
    obtain rfl : found = event := NativeResult.event.inj (hfound.symm.trans hevent)
    obtain rfl : other = found := NativeResult.event.inj (hother.symm.trans hfound)
    exact ((featureFree_iff hnormalize).mp hfoundFree).2
  · intro hflat _ index hindex
    obtain ⟨event, hevent, hnormalize⟩ := native_of_yields hyields hindex
    refine ⟨event, hevent, (featureFree_iff hnormalize).mpr ⟨?_, hflat index hindex event hevent⟩⟩
    exact hfree _ (List.getElem_mem hindex)

end

/-- **Excluded features.** Through the libyaml provider, an accepting run consumed no excluded
feature exactly when the input is not a strict document one of whose node events has an anchor or a
tag that points to an empty string. -/
theorem features_excluded_iff (origin : SourceOrigin) (byteLength : Nat)
    (native : Nat → NativeResult) (limits : ParseLimits) :
    FeaturesExcluded origin byteLength native limits ↔
      ∀ document, byteLength ≤ limits.maximumDocumentBytes → StrictDocument limits document →
        (libyamlInput origin byteLength native).provider.Yields 0 document.serialize →
        ∀ index < document.serialize.length, ∀ event, native index = .event event →
          ¬event.data.FlattensEmpty := by
  constructor
  · intro hexcluded document hbytes hstrict hyields
    exact (featuresExcluded_iff_of_strict hbytes hstrict hyields).mp hexcluded
  · intro hcondition haccepted
    obtain ⟨root, hroot⟩ := haccepted
    obtain ⟨hbytes, document, hstrict, hyields, -⟩ := documentOutcome_eq_ok_iff_strict.mp hroot
    exact (featuresExcluded_iff_of_strict hbytes hstrict hyields).mpr
      (hcondition document hbytes hstrict hyields) ⟨root, hroot⟩

/-- The native events of the document `!<%00> text`: libyaml decodes the escape in the explicit tag
of its only node, so the tag points to a terminator. -/
def emptyTagEvents : List NativeEvent :=
  [⟨⟨0, 0⟩, .streamStart⟩, ⟨⟨0, 0⟩, .documentStart none []⟩,
    ⟨⟨0, 0⟩, .scalar none (some ⟨[], List.not_mem_nil⟩) (ascii "text")⟩,
    ⟨⟨0, 11⟩, .documentEnd⟩, ⟨⟨0, 11⟩, .streamEnd⟩]

def emptyTagRun (index : Nat) : NativeResult :=
  .event (emptyTagEvents.getD index ⟨⟨0, 0⟩, .noEvent⟩)

/-- A node with an explicit non-standard tag is accepted. -/
theorem emptyTagRun_accepted :
    ¬FeaturesExcluded ⟨ascii "recipe.yaml"⟩ 11 emptyTagRun {} := by
  intro hexcluded
  have haccepted : documentOutcome (libyamlInput ⟨ascii "recipe.yaml"⟩ 11 emptyTagRun)
      ⟨ascii "recipe.yaml"⟩ {} = .ok ⟨.scalar, ⟨1, 1⟩, ascii "text", []⟩ := rfl
  have hcalls : 2 < (finalState (libyamlInput ⟨ascii "recipe.yaml"⟩ 11 emptyTagRun)
      ⟨ascii "recipe.yaml"⟩ {}).calls := by decide
  obtain ⟨event, hevent, hfree⟩ := hexcluded ⟨_, haccepted⟩ 2 hcalls
  obtain rfl := NativeResult.event.inj hevent
  obtain ⟨-, htag | ⟨text, htag, hstandard⟩⟩ := hfree
  · cases htag
  · obtain rfl := Option.some.inj htag
    exact nil_notMem_standardTags .scalar hstandard

end PkgsourceYaml
