import PkgsourceYaml.Proof.Reading
import PkgsourceYaml.Proof.Validation

/-!
# The strict subset

`parse_document` accepts exactly the strict documents whose events the provider yields, and returns
the tree they spell.
-/

namespace PkgsourceYaml

open Throwing

variable {input : Input} {origin : SourceOrigin} {limits : ParseLimits}

theorem readEnd_sound {state : ParseState} :
    Meets (readTree.readEnd input origin limits) state
      (fun _ after => ∃ documentEnd streamEnd : YamlEvent, documentEnd.kind = .documentEnd ∧
        streamEnd.kind = .streamEnd ∧ input.provider.Yields state.calls [documentEnd, streamEnd] ∧
        after.calls = state.calls + 2 ∧ after.nodes = state.nodes)
      (fun _ _ => True) := by
  unfold readTree.readEnd
  refine Meets.bind (meets_next (fun documentEnd hdocumentEnd => ?_) fun _ _ => trivial)
  apply Meets.ite (fun _ => Meets.throw trivial)
  intro hdocumentKind
  refine Meets.bind (meets_next (fun streamEnd hstreamEnd => ?_) fun _ _ => trivial)
  apply Meets.ite (fun _ => Meets.throw trivial)
  intro _
  apply Meets.ite (fun _ => Meets.throw trivial)
  intro hstreamKind
  exact Meets.pure ⟨documentEnd, streamEnd, not_not.mp hdocumentKind, not_not.mp hstreamKind,
    ⟨(nextResult_eq_ok_iff.mp hdocumentEnd).1, (nextResult_eq_ok_iff.mp hstreamEnd).1, trivial⟩,
    rfl, rfl⟩

/-- What `parse_document` returned before key validation is a spelled-out document. -/
theorem readTree_sound {fuel : Nat} :
    Meets (readTree input origin limits fuel) {}
      (fun root after => input.byteLength ≤ limits.maximumDocumentBytes ∧
        ∃ document : DocumentEvents, document.root.toNode = root ∧ SpelledDocument limits document ∧
          input.provider.Yields 0 document.serialize ∧
          after.calls = document.serialize.length ∧ after.nodes = root.nodeCount)
      (fun _ _ => True) := by
  unfold readTree
  apply Meets.ite (fun _ => Meets.throw trivial)
  intro hbytes
  refine Meets.bind (meets_next (fun streamStart hstreamStart => ?_) fun _ _ => trivial)
  apply Meets.ite (fun _ => Meets.throw trivial)
  intro hstreamKind
  refine Meets.bind (meets_next (fun documentStart hdocumentStart => ?_) fun _ _ => trivial)
  apply Meets.ite (fun _ => Meets.throw trivial)
  intro hdocumentKind
  apply Meets.ite (fun _ => Meets.throw trivial)
  intro hdirectives
  refine Meets.bind (meets_next (fun first hfirst => ?_) fun _ _ => trivial)
  apply Meets.ite (fun _ => Meets.throw trivial)
  intro _
  obtain ⟨hprovider, hscalar⟩ := nextResult_eq_ok_iff.mp hfirst
  refine Meets.bind (Meets.mono (parseNode_sound hscalar) (fun root after _ hroot => ?_)
    fun _ _ _ _ => trivial)
  obtain ⟨tree, rfl, hnode, hreads⟩ := hroot
  refine Meets.bind (Meets.mono readEnd_sound (fun _ last _ hend => ?_) fun _ _ _ _ => trivial)
  obtain ⟨documentEnd, streamEnd, hdocumentEnd, hstreamEnd, hyields, hcalls, hnodes⟩ := hend
  have hlength : tree.serialize.length = tree.serialize.tail.length + 1 := by
    rw [tree.serialize_eq_cons]
    rfl
  have hafter : after.calls = 2 + tree.serialize.length := by
    have hreadCalls := hreads.calls
    simp only [ParseState.calls_pulled] at hreadCalls
    omega
  have hcount : after.nodes = tree.subtrees.length := by
    have hreadNodes := hreads.nodes
    simp only [ParseState.nodes_pulled] at hreadNodes
    omega
  refine Meets.pure ⟨Nat.le_of_not_lt hbytes,
    ⟨streamStart, documentStart, tree, documentEnd, streamEnd⟩, hnode, ?_, ?_, ?_, ?_⟩
  · refine ⟨not_not.mp hstreamKind, not_not.mp hdocumentKind, by simpa using hdirectives,
      hdocumentEnd, hstreamEnd, fun subtree h => (hreads.admitted subtree h).bracketed,
      fun subtree h => (hreads.admitted subtree h).plain, hcount ▸ hreads.bound, ?_,
      fun subtree h => (hreads.admitted subtree h).scalar,
      fun subtree h => (hreads.admitted subtree h).paired⟩
    have hdepth := hreads.depth
    simp only
    omega
  · refine ⟨(nextResult_eq_ok_iff.mp hstreamStart).1,
      (nextResult_eq_ok_iff.mp hdocumentStart).1, ?_⟩
    rw [Provider.yields_append]
    refine ⟨?_, ?_⟩
    · rw [tree.serialize_eq_cons]
      exact ⟨hprovider, hreads.yields⟩
    · rw [hafter] at hyields
      exact hyields
  · simp only [DocumentEvents.serialize, List.length_cons, List.length_append, List.length_nil]
    omega
  · rw [hnodes, hcount, ← hnode, Node.nodeCount, EventTree.nodes_toNode, List.length_map]

/-- On the events of a spelled-out document within the byte ceiling, nothing is thrown before key
validation. -/
theorem readTree_complete (origin : SourceOrigin) {fuel : Nat} {document : DocumentEvents}
    (hbytes : input.byteLength ≤ limits.maximumDocumentBytes)
    (hdocument : SpelledDocument limits document)
    (hyields : input.provider.Yields 0 document.serialize)
    (hfuel : 2 * document.root.subtrees.length ≤ fuel) :
    Meets (readTree input origin limits fuel) {}
      (fun root after => root = document.root.toNode ∧
        after.calls = document.serialize.length) (fun _ _ => False) := by
  obtain ⟨hstreamStart, hdocumentStart, hrest⟩ := hyields
  rw [Provider.yields_append] at hrest
  obtain ⟨hroot, hdocumentEnd, hstreamEnd, -⟩ := hrest
  rw [document.root.serialize_eq_cons] at hroot
  have hadmitted : ∀ subtree ∈ document.root.subtrees, subtree.Admitted limits :=
    fun subtree h => ⟨hdocument.bracketed subtree h, hdocument.plain subtree h,
      hdocument.scalars subtree h, hdocument.paired subtree h⟩
  have hself : document.root.Admitted limits := hadmitted _ document.root.self_mem_subtrees
  have hnoEnd := (first_of_admitted hself .sequence).2
  have hdepth := hdocument.depth
  have hnodes := hdocument.nodes
  unfold readTree
  rw [if_neg (by omega)]
  refine Meets.bind (meets_next_of_yields hstreamStart (by simp [hdocument.streamStart]) ?_)
  rw [if_neg (by simp [hdocument.streamStart])]
  refine Meets.bind (meets_next_of_yields hdocumentStart (by simp [hdocument.documentStart]) ?_)
  rw [if_neg (by simp [hdocument.documentStart]), if_neg (by simp [hdocument.directives])]
  refine Meets.bind (meets_next_of_yields hroot.1 (scalar_of_admitted hself) ?_)
  rw [if_neg fun h => hnoEnd (Or.inr h)]
  refine Meets.bind (Meets.mono (parseNode_complete document.root fuel _ 1 _ hfuel
    ⟨hadmitted, by omega, hroot.2, ?_⟩) (fun root after _ hreturns => ?_) fun _ _ _ h => h)
  · simp only [ParseState.nodes_pulled]
    omega
  · obtain ⟨rfl, hcalls, -⟩ := hreturns
    have hafter : after.calls = 0 + 1 + 1 + document.root.serialize.length := by
      rw [hcalls, document.root.serialize_eq_cons]
      simp only [ParseState.calls_pulled, List.length_cons, List.tail_cons]
      omega
    unfold readTree.readEnd
    refine Meets.bind (Meets.bind (meets_next_of_yields (hafter ▸ hdocumentEnd)
      (by simp [hdocument.documentEnd]) ?_))
    rw [if_neg (by simp [hdocument.documentEnd])]
    have hlast : input.provider (after.calls + 1) = .ok document.streamEnd := by
      rw [hafter]
      exact hstreamEnd
    refine Meets.bind (meets_next_of_yields hlast (by simp [hdocument.streamEnd]) ?_)
    rw [if_neg (by simp [hdocument.streamEnd]), if_neg (by simp [hdocument.streamEnd])]
    refine Meets.pure (Meets.pure ⟨rfl, ?_⟩)
    simp only [ParseState.calls_pulled, hafter, DocumentEvents.serialize, List.length_cons,
      List.length_append, List.length_nil]
    omega

theorem shaped_of_spelled {document : DocumentEvents} (h : SpelledDocument limits document) :
    ∀ node ∈ document.root.toNode.nodes, node.Shaped := by
  intro node hnode
  rw [EventTree.nodes_toNode] at hnode
  obtain ⟨tree, htree, rfl⟩ := List.mem_map.mp hnode
  have hbracketed := h.bracketed tree htree
  have hpaired := h.paired tree htree
  cases tree with
  | scalar event =>
      exact ⟨fun _ => rfl, fun hkind => absurd rfl hkind,
        fun hkind => absurd hkind (by simp [EventTree.toNode])⟩
  | collection kind first children last =>
      rw [EventTree.toNode_collection]
      refine ⟨fun hkind => ?_, fun _ => rfl, fun hkind => ?_⟩
      · rcases hbracketed with ⟨rfl, -⟩ | ⟨rfl, -⟩ <;> simp at hkind
      · rw [List.length_map]
        exact hpaired hkind

theorem runDocument_eq_ok_iff {root : Node} {after : ParseState} :
    runDocument input origin limits = .ok root after ↔
      readTree input origin limits (parseFuel limits) {} = .ok root after ∧
        validateTree origin root (ascii "$") = .ok () := by
  unfold runDocument parseDocument
  simp only [Bind.bind, EStateM.bind]
  cases hread : readTree input origin limits (parseFuel limits) {} with
  | error exception failed => simp
  | ok found reached =>
      cases hvalid : validateTree origin found (ascii "$") with
      | error exception =>
          have hlift : liftExcept (Except.error exception : Except Exception Unit) reached =
            .error exception reached := rfl
          simp only [hvalid, hlift, reduceCtorEq, false_iff, not_and]
          intro hsame hother
          injection hsame with hroot
          rw [← hroot, hvalid] at hother
          cases hother
      | ok _ =>
          simp only [liftExcept, hvalid, pure, EStateM.pure, EStateM.Result.ok.injEq,
            iff_self_and]
          rintro ⟨rfl, rfl⟩
          exact hvalid

theorem documentOutcome_eq_ok_iff {root : Node} :
    documentOutcome input origin limits = .ok root ↔
      ∃ after, runDocument input origin limits = .ok root after := by
  unfold documentOutcome
  cases runDocument input origin limits <;> simp

/-- What a run of `parse_document` returned is spelled by the events it pulled, as a strict
document. -/
theorem strict_of_runDocument {root : Node} {after : ParseState}
    (h : runDocument input origin limits = .ok root after) :
    input.byteLength ≤ limits.maximumDocumentBytes ∧
      ∃ document, StrictDocument limits document ∧ input.provider.Yields 0 document.serialize ∧
        document.root.toNode = root ∧ after.calls = document.serialize.length := by
  obtain ⟨hread, hvalid⟩ := runDocument_eq_ok_iff.mp h
  obtain ⟨hbytes, document, rfl, hspelled, hyields, hcalls, -⟩ := readTree_sound.ok hread
  rw [validateTree_eq_ok_iff, Node.valid_iff_clean (shaped_of_spelled hspelled)] at hvalid
  refine ⟨hbytes, document, ⟨hspelled, fun tree htree hkind => ?_⟩, hyields, rfl, hcalls⟩
  refine hvalid tree.toNode ?_ (by rw [EventTree.kind_toNode, hkind])
  rw [EventTree.nodes_toNode]
  exact List.mem_map_of_mem htree

/-- On the events of a strict document within the byte ceiling, `parse_document` returns its tree
after pulling exactly these events. -/
theorem runDocument_of_strict (origin : SourceOrigin) {document : DocumentEvents}
    (hbytes : input.byteLength ≤ limits.maximumDocumentBytes)
    (hstrict : StrictDocument limits document)
    (hyields : input.provider.Yields 0 document.serialize) :
    ∃ after, runDocument input origin limits = .ok document.root.toNode after ∧
      after.calls = document.serialize.length := by
  have hspelled := hstrict.toSpelledDocument
  have hfuel : 2 * document.root.subtrees.length ≤ parseFuel limits := by
    have hnodes := hspelled.nodes
    unfold parseFuel
    omega
  have hcomplete := readTree_complete origin hbytes hspelled hyields hfuel
  have hvalid : validateTree origin document.root.toNode (ascii "$") = .ok () := by
    rw [validateTree_eq_ok_iff, Node.valid_iff_clean (shaped_of_spelled hspelled)]
    intro node hnode hkind
    rw [EventTree.nodes_toNode] at hnode
    obtain ⟨tree, htree, rfl⟩ := List.mem_map.mp hnode
    exact hstrict.keys tree htree (by rw [← EventTree.kind_toNode, hkind])
  cases hread : readTree input origin limits (parseFuel limits) {} with
  | ok root after =>
      obtain ⟨rfl, hcalls⟩ := hcomplete.ok hread
      exact ⟨after, runDocument_eq_ok_iff.mpr ⟨hread, hvalid⟩, hcalls⟩
  | error exception after => exact (hcomplete.error hread).elim

/-- `parse_document` returns a tree exactly when the provider's events spell it as a strict
document. -/
theorem documentOutcome_eq_ok_iff_strict {root : Node} :
    documentOutcome input origin limits = .ok root ↔
      input.byteLength ≤ limits.maximumDocumentBytes ∧
        ∃ document, StrictDocument limits document ∧
          input.provider.Yields 0 document.serialize ∧ document.root.toNode = root := by
  rw [documentOutcome_eq_ok_iff]
  constructor
  · rintro ⟨after, h⟩
    obtain ⟨hbytes, document, hstrict, hyields, hroot, -⟩ := strict_of_runDocument h
    exact ⟨hbytes, document, hstrict, hyields, hroot⟩
  · rintro ⟨hbytes, document, hstrict, hyields, rfl⟩
    obtain ⟨after, h, -⟩ := runDocument_of_strict origin hbytes hstrict hyields
    exact ⟨after, h⟩

theorem valid_of_documentOutcome {root : Node}
    (h : documentOutcome input origin limits = .ok root) : root.Valid := by
  obtain ⟨after, hrun⟩ := documentOutcome_eq_ok_iff.mp h
  exact validateTree_eq_ok_iff.mp (runDocument_eq_ok_iff.mp hrun).2

/-- The mark of every node of the tree is that of an event the provider yielded. -/
theorem mark_of_documentOutcome {root : Node}
    (h : documentOutcome input origin limits = .ok root) {node : Node} (hnode : node ∈ root.nodes) :
    ∃ call event, input.provider call = .ok event ∧ node.mark = event.mark := by
  obtain ⟨-, document, -, hyields, rfl⟩ := documentOutcome_eq_ok_iff_strict.mp h
  rw [EventTree.nodes_toNode] at hnode
  obtain ⟨tree, htree, rfl⟩ := List.mem_map.mp hnode
  have hevent : tree.first ∈ document.serialize :=
    List.mem_cons_of_mem _ (List.mem_cons_of_mem _
      (List.mem_append_left _ (EventTree.first_mem_serialize htree)))
  obtain ⟨call, hcall⟩ := hyields.exists_call hevent
  exact ⟨call, tree.first, hcall, by cases tree <;> rfl⟩

/-- **The strict subset.** `parse_document` succeeds exactly on a document within the byte ceiling
whose events begin with a strict document, and the tree it returns is the one they spell. -/
theorem parseDocument_succeeds_iff (input : Input) (origin : SourceOrigin) (limits : ParseLimits) :
    ((∃ root, documentOutcome input origin limits = .ok root) ↔
      input.byteLength ≤ limits.maximumDocumentBytes ∧
        ∃ document, StrictDocument limits document ∧
          input.provider.Yields 0 document.serialize) ∧
    ∀ root document, documentOutcome input origin limits = .ok root →
      StrictDocument limits document → input.provider.Yields 0 document.serialize →
      document.root.toNode = root := by
  constructor
  · constructor
    · rintro ⟨root, h⟩
      obtain ⟨hbytes, document, hstrict, hyields, -⟩ := documentOutcome_eq_ok_iff_strict.mp h
      exact ⟨hbytes, document, hstrict, hyields⟩
    · rintro ⟨hbytes, document, hstrict, hyields⟩
      exact ⟨document.root.toNode,
        documentOutcome_eq_ok_iff_strict.mpr ⟨hbytes, document, hstrict, hyields, rfl⟩⟩
  · intro root document h hstrict hyields
    have hbytes := (documentOutcome_eq_ok_iff_strict.mp h).1
    have hroot : documentOutcome input origin limits = .ok document.root.toNode :=
      documentOutcome_eq_ok_iff_strict.mpr ⟨hbytes, document, hstrict, hyields, rfl⟩
    exact Except.ok.inj (hroot.symm.trans h)

end PkgsourceYaml
