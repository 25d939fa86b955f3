import PkgsourceYaml.Prefix
import PkgsourceYaml.Proof.Scan

/-!
# The scan takes the beginnings of documents, and no others

The scan keeps `Progress`: whatever it has taken so far is the beginning of a document, which
closing the open collections completes. Conversely it takes every event of a document.
-/

namespace PkgsourceYaml

open Throwing Runs

variable {origin : SourceOrigin} {limits : ParseLimits}

/-! ### What one event does -/

theorem scanNode_eq_ok_iff {stack : List Frame} {nodes : Nat} {event : YamlEvent} {after : Scan} :
    scanNode origin limits stack nodes event = .ok after ↔
      ∃ kind, Opens kind event ∧ stack.length + 1 ≤ limits.maximumDepth ∧
        nodes < limits.maximumNodes ∧ after = ⟨openNode kind event stack, nodes + 1⟩ := by
  unfold scanNode scanFail
  by_cases halias : event.kind = .alias
  · rw [if_pos halias, throw_eq_ok, false_iff]
    rintro ⟨kind, hopens, -⟩
    have hkind := hopens.node
    rw [halias] at hkind
    cases hkind
  rw [if_neg halias]
  cases hkind : event.kind.nodeKind? with
  | none =>
      simp only [throw_eq_ok, false_iff]
      rintro ⟨kind, hopens, -⟩
      rw [hopens.node] at hkind
      cases hkind
  | some kind =>
      have hresult : (if kind = .scalar then
            (pure ⟨completeNode ⟨kind, event.mark, event.value, []⟩ stack, nodes + 1⟩ :
              Except Exception Scan)
          else pure ⟨.inside ⟨kind, event.mark, []⟩ stack, nodes + 1⟩) =
          .ok ⟨openNode kind event stack, nodes + 1⟩ := by
        unfold openNode
        by_cases hscalar : kind = .scalar
        · simp only [if_pos hscalar]
          rfl
        · simp only [if_neg hscalar]
          rfl
      simp only [ite_throw_eq_ok, hresult, Except.ok.injEq]
      constructor
      · rintro ⟨hanchor, htag, hdepth, hnodes, rfl⟩
        exact ⟨kind, ⟨hkind, not_not.mp hanchor, by simpa using htag⟩, by omega, by omega, rfl⟩
      · rintro ⟨found, hopens, hdepth, hnodes, rfl⟩
        obtain rfl : kind = found := by simpa [hkind] using hopens.node
        exact ⟨not_not.mpr hopens.anchor, by simp [hopens.tag], by omega, by omega, rfl⟩

theorem closeFrame_eq_ok_iff {top : Frame} {below : List Frame} {phase : ScanPhase} :
    closeFrame origin top below = .ok phase ↔
      (top.kind = .mapping → top.completed.length % 2 = 0) ∧
        phase = completeNode ⟨top.kind, top.mark, [], top.completed⟩ below := by
  unfold closeFrame scanFail
  rw [ite_throw_eq_ok, pure_eq_ok, not_and, not_not]
  exact and_congr_right fun _ => eq_comm

/-- A node the scan may take keeps the collections open above which it stands. -/
structure TakesNode (limits : ParseLimits) (stack : List Frame) (nodes : Nat) (event : YamlEvent)
    (kind : NodeKind) : Prop where
  opens : Opens kind event
  depth : stack.length + 1 ≤ limits.maximumDepth
  nodes : nodes < limits.maximumNodes

theorem scanEvent_expecting {stack : List Frame} {nodes : Nat} {event : YamlEvent} {after : Scan}
    (h : scanEvent origin limits event nodes (expecting stack) = .ok after) :
    (∃ kind, TakesNode limits stack nodes event kind ∧
        after = ⟨openNode kind event stack, nodes + 1⟩) ∨
      ∃ top below, stack = top :: below ∧ top.kind.endsWith event.kind = true ∧
        (top.kind = .mapping → top.completed.length % 2 = 0) ∧
        after = ⟨completeNode ⟨top.kind, top.mark, [], top.completed⟩ below, nodes⟩ := by
  cases stack with
  | nil =>
      simp only [expecting, scanEvent, scanFail, ite_throw_eq_ok] at h
      obtain ⟨kind, hopens, hdepth, hnodes, hafter⟩ := scanNode_eq_ok_iff.mp h.2
      exact Or.inl ⟨kind, ⟨hopens, hdepth, hnodes⟩, hafter⟩
  | cons top below =>
      simp only [expecting, scanEvent] at h
      by_cases hends : top.kind.endsWith event.kind = true
      · rw [if_pos hends] at h
        obtain ⟨phase, hphase, hafter⟩ := bind_eq_ok.mp h
        obtain ⟨hpaired, hcomplete⟩ := closeFrame_eq_ok_iff.mp hphase
        rw [pure_eq_ok, hcomplete] at hafter
        exact Or.inr ⟨top, below, rfl, hends, hpaired, hafter.symm⟩
      · rw [if_neg hends] at h
        simp only [scanFail, ite_throw_eq_ok] at h
        obtain ⟨kind, hopens, hdepth, hnodes, hafter⟩ := scanNode_eq_ok_iff.mp h.2
        exact Or.inl ⟨kind, ⟨hopens, hdepth, hnodes⟩, hafter⟩

/-! ### The scan keeps to the beginnings of documents -/

theorem finished_scalar {height : Nat} {event : YamlEvent} (hopens : Opens .scalar event)
    (hscalar : event.kind = .scalar → event.value.length ≤ limits.maximumScalarBytes)
    (hdepth : height + 1 ≤ limits.maximumDepth) : Finished limits height (.scalar event) := by
  have hkind : event.kind = .scalar := nodeKind?_eq_some_scalar.mp hopens.node
  refine ⟨fun subtree hsubtree => ?_, hdepth⟩
  rw [List.mem_singleton.mp hsubtree]
  exact ⟨hkind, ⟨hopens.anchor, permittedTag_iff.mp hopens.tag⟩, fun _ => hscalar hkind,
    fun hmapping => absurd hmapping NodeKind.noConfusion⟩

theorem OpenTree.Admitted.finished {height : Nat} {tree : OpenTree} {last : YamlEvent}
    (h : tree.Admitted limits height) (hends : tree.kind.endsWith last.kind = true)
    (hpaired : tree.kind = .mapping → tree.children.length % 2 = 0) :
    Finished limits height (.collection tree.kind tree.first tree.children last) := by
  constructor
  · intro subtree hsubtree
    rw [EventTree.subtrees_collection, List.mem_cons, List.mem_flatMap] at hsubtree
    rcases hsubtree with rfl | ⟨child, hchild, hsubtree⟩
    · exact ⟨bracketed_collection h.opens.node hends,
        ⟨h.opens.anchor, permittedTag_iff.mp h.opens.tag⟩,
        fun hscalar => absurd hscalar h.collection, hpaired⟩
    · exact (h.children child hchild).admitted subtree hsubtree
  · have hbound : (EventTree.collection tree.kind tree.first tree.children last).depth ≤
        limits.maximumDepth - height := by
      refine depth_collection_le (fun child hchild => ?_) (by have := h.depth; omega)
      have hchild := (h.children child hchild).depth
      omega
    have hdepth := h.depth
    omega

@[simp] theorem OpenTree.frame_add (tree : OpenTree) (child : EventTree) :
    (tree.add child).frame = tree.frame.add child.toNode := by
  simp [OpenTree.frame, OpenTree.add, Frame.add]

theorem openEvents_add (top : OpenTree) (below : List OpenTree) (child : EventTree) :
    openEvents (top.add child :: below) = openEvents (top :: below) ++ child.serialize := by
  simp [openEvents, OpenTree.add]

/-- A finished tree goes to the innermost open collection. -/
theorem OpenStack.add {top : OpenTree} {below : List OpenTree} {child : EventTree}
    (h : OpenStack limits (top :: below)) (hchild : Finished limits (below.length + 1) child) :
    OpenStack limits (top.add child :: below) := by
  obtain ⟨htop, hbelow⟩ := h
  refine ⟨⟨htop.opens, htop.collection, htop.depth, fun other hother => ?_⟩, hbelow⟩
  rcases List.mem_append.mp hother with hother | hother
  · exact htop.children other hother
  · rw [List.mem_singleton.mp hother]
    exact hchild

theorem Progress.complete {stream document : YamlEvent} (h : Opening stream document)
    {stack : List OpenTree} (hstack : OpenStack limits stack) {tree : EventTree}
    (htree : Finished limits stack.length tree) :
    Progress limits (completeNode tree.toNode (stack.map OpenTree.frame))
      (stream :: document :: (openEvents stack ++ tree.serialize)) := by
  cases stack with
  | nil => exact Progress.documentEnd h htree
  | cons top below =>
      have hnode := Progress.node h (hstack.add htree)
      rw [openEvents_add, List.map_cons, OpenTree.frame_add] at hnode
      exact hnode

/-- A finished root between the events of its document is a document, with as many nodes as it has.
-/
theorem Finished.spelled {stream document ending last : YamlEvent} {tree : EventTree}
    (htree : Finished limits 0 tree) (hopening : Opening stream document)
    (hending : ending.kind = .documentEnd) (hlast : last.kind = .streamEnd) :
    SpelledDocument (limits.withNodes tree.subtrees.length)
      ⟨stream, document, tree, ending, last⟩ where
  streamStart := hopening.streamKind
  documentStart := hopening.documentKind
  directives := hopening.directives
  documentEnd := hending
  streamEnd := hlast
  bracketed subtree h := (htree.admitted subtree h).bracketed
  plain subtree h := (htree.admitted subtree h).plain
  nodes := Nat.le_refl _
  depth := by
    have hdepth := htree.depth
    rw [Nat.zero_add] at hdepth
    exact hdepth
  scalars subtree h := (htree.admitted subtree h).scalar
  paired subtree h := (htree.admitted subtree h).paired

theorem length_frames (stack : List OpenTree) : (stack.map OpenTree.frame).length = stack.length :=
  List.length_map _

/-- The step lemma: one event more, one step further into a document. -/
theorem Progress.step {scan after : Scan} {events : List YamlEvent} {event : YamlEvent}
    (h : Progress limits scan.phase events) (hstep : ScanStep origin limits scan event after) :
    Progress limits after.phase (events ++ [event]) := by
  obtain ⟨phase, nodes⟩ := scan
  have htaken := hstep.taken
  have hscalar := hstep.scalar
  cases h with
  | streamStart =>
      simp only [scanEvent, scanFail, ite_throw_eq_ok, pure_eq_ok] at htaken
      rw [← htaken.2]
      exact Progress.documentStart (not_not.mp htaken.1)
  | documentStart hstream =>
      simp only [scanEvent, scanFail, ite_throw_eq_ok, pure_eq_ok] at htaken
      obtain ⟨hkind, hdirectives, rfl⟩ := htaken
      have hopening : Opening _ event := ⟨hstream, not_not.mp hkind, by simpa using hdirectives⟩
      have hempty : OpenStack limits [] := trivial
      exact Progress.node hopening hempty
  | @node stream document hopening stack hstack =>
      rcases scanEvent_expecting htaken with ⟨kind, htakes, rfl⟩ | hcloses
      · have hdepth := htakes.depth
        rw [length_frames] at hdepth
        by_cases hkind : kind = .scalar
        · subst hkind
          exact Progress.complete hopening hstack (finished_scalar htakes.opens hscalar hdepth)
        · have hopened : (⟨kind, event, []⟩ : OpenTree).Admitted limits stack.length :=
            ⟨htakes.opens, hkind, hdepth, fun child hchild => absurd hchild List.not_mem_nil⟩
          have hphase : openNode kind event (stack.map OpenTree.frame) =
              expecting ((⟨kind, event, []⟩ :: stack).map OpenTree.frame) := if_neg hkind
          have hpushed : OpenStack limits (⟨kind, event, []⟩ :: stack) := ⟨hopened, hstack⟩
          rw [hphase]
          exact Progress.node hopening hpushed
      · obtain ⟨top, below, hframes, hends, hpaired, rfl⟩ := hcloses
        obtain ⟨tree, rest, rfl, rfl, rfl⟩ := List.map_eq_cons_iff.mp hframes
        have hfinished := hstack.1.finished hends fun hmapping => by
          simpa [OpenTree.frame] using hpaired hmapping
        have hcomplete := Progress.complete hopening hstack.2 hfinished
        rw [EventTree.toNode_collection, EventTree.serialize_collection] at hcomplete
        have hevents : stream :: document :: openEvents (tree :: rest) ++ [event] =
            stream :: document :: (openEvents rest ++
              (tree.first :: (tree.children.flatMap EventTree.serialize ++ [event]))) := by
          simp [openEvents]
        rw [hevents]
        exact hcomplete
  | documentEnd hopening htree =>
      simp only [scanEvent, scanFail, ite_throw_eq_ok, pure_eq_ok] at htaken
      rw [← htaken.2]
      exact Progress.streamEnd hopening htree (not_not.mp htaken.1)
  | streamEnd hopening htree hending =>
      simp only [scanEvent, scanFail, ite_throw_eq_ok, pure_eq_ok] at htaken
      obtain ⟨-, hlast, rfl⟩ := htaken
      have hdone := Progress.done (htree.spelled hopening hending (not_not.mp hlast))
      simpa [DocumentEvents.serialize] using hdone
  | done => exact absurd rfl (hstep.asks _)

/-- The run lemma: whatever the scan has taken spells the phase it has come to. -/
theorem progress_of_scans {events : List YamlEvent} {scan : Scan}
    (h : Scans origin limits {} events scan) : Progress limits scan.phase events :=
  h.invariant (I := fun events scan => Progress limits scan.phase events) Progress.streamStart
    fun _ _ _ _ hprogress hstep => hprogress.step hstep

/-! ### Every beginning can be completed -/

/-- What a mapping with a key to spare still needs. -/
def OpenTree.owed (tree : OpenTree) : List EventTree :=
  if tree.kind = .mapping ∧ tree.children.length % 2 ≠ 0 then [EventTree.text ""] else []

def NodeKind.ending : NodeKind → YamlEvent
  | .mapping => { kind := .mappingEnd }
  | _ => { kind := .sequenceEnd }

theorem endsWith_ending {kind : NodeKind} (h : kind ≠ .scalar) :
    kind.endsWith kind.ending.kind = true := by
  cases kind with
  | scalar => exact absurd rfl h
  | sequence => rfl
  | mapping => rfl

/-- The innermost collection, ended where it stands. -/
def OpenTree.finish (tree : OpenTree) : EventTree :=
  .collection tree.kind tree.first (tree.children ++ tree.owed) tree.kind.ending

theorem finished_text {height : Nat} (h : height + 1 ≤ limits.maximumDepth) :
    Finished limits height (EventTree.text "") :=
  finished_scalar ⟨rfl, rfl, rfl⟩ (fun _ => Nat.zero_le _) h

theorem OpenTree.Admitted.finish {height : Nat} {tree : OpenTree}
    (h : tree.Admitted limits height) : Finished limits height tree.finish := by
  have hwhole : (⟨tree.kind, tree.first, tree.children ++ tree.owed⟩ : OpenTree).Admitted limits
      height := by
    refine ⟨h.opens, h.collection, h.depth, fun child hchild => ?_⟩
    rcases List.mem_append.mp hchild with hchild | hchild
    · exact h.children child hchild
    · unfold OpenTree.owed at hchild
      by_cases hodd : tree.kind = .mapping ∧ tree.children.length % 2 ≠ 0
      · rw [if_pos hodd, List.mem_singleton] at hchild
        -- a key to spare stands at the depth at which its value will
        have hkey : ∃ key, key ∈ tree.children := by
          refine List.exists_mem_of_ne_nil _ fun hnil => hodd.2 ?_
          rw [hnil]
          rfl
        obtain ⟨key, hmem⟩ := hkey
        have hdepth := (h.children key hmem).depth
        have hpositive := one_le_depth key
        rw [hchild]
        exact finished_text (by omega)
      · rw [if_neg hodd] at hchild
        exact absurd hchild List.not_mem_nil
  refine hwhole.finished (endsWith_ending h.collection) fun hmapping => ?_
  unfold OpenTree.owed
  by_cases hodd : tree.children.length % 2 = 0
  · rw [if_neg fun hboth => hboth.2 hodd, List.append_nil]
    exact hodd
  · rw [if_pos ⟨hmapping, hodd⟩, List.length_append, List.length_singleton]
    omega

/-- Closing the open collections one by one ends with a root. -/
theorem OpenStack.close (below : List OpenTree) : ∀ top : OpenTree,
    OpenStack limits (top :: below) → ∃ tree rest, Finished limits 0 tree ∧ rest ≠ [] ∧
      tree.serialize = openEvents (top :: below) ++ rest := by
  induction below with
  | nil =>
      intro top hstack
      refine ⟨top.finish, top.owed.flatMap EventTree.serialize ++ [top.kind.ending],
        hstack.1.finish, by simp, ?_⟩
      simp [OpenTree.finish, EventTree.serialize_collection, openEvents]
  | cons outer below ih =>
      intro top hstack
      have hadded := hstack.2.add hstack.1.finish
      obtain ⟨tree, rest, htree, -, hevents⟩ := ih (outer.add top.finish) hadded
      refine ⟨tree, top.owed.flatMap EventTree.serialize ++ top.kind.ending :: rest, htree,
        by simp, ?_⟩
      rw [hevents, openEvents_add]
      simp [OpenTree.finish, EventTree.serialize_collection, openEvents]

theorem begins_of_spelled {events : List YamlEvent} {document : DocumentEvents} {nodes : Nat}
    (h : SpelledDocument (limits.withNodes nodes) document) (rest : List YamlEvent)
    (hrest : rest ≠ []) (hevents : document.serialize = events ++ rest) :
    ∃ nodes, Begins (limits.withNodes nodes) events :=
  ⟨nodes, document, rest, h, hrest, hevents⟩

/-- What the scan has taken before it is done begins a document. -/
theorem Progress.begins {phase : ScanPhase} {events : List YamlEvent}
    (h : Progress limits phase events) (hphase : ∀ root, phase ≠ .done root)
    (hdepth : 0 < limits.maximumDepth) : ∃ nodes, Begins (limits.withNodes nodes) events := by
  have hempty : Finished limits 0 (EventTree.text "") := finished_text hdepth
  have hstart : ({ kind := .documentStart } : YamlEvent).kind = .documentStart := rfl
  have hending : ({ kind := .documentEnd } : YamlEvent).kind = .documentEnd := rfl
  have hlast : ({ kind := .streamEnd } : YamlEvent).kind = .streamEnd := rfl
  have hmore : ∀ (event : YamlEvent) (rest : List YamlEvent), event :: rest ≠ [] := List.cons_ne_nil
  cases h with
  | streamStart =>
      have hopening : Opening { kind := .streamStart } { kind := .documentStart } :=
        ⟨rfl, hstart, rfl⟩
      exact begins_of_spelled (hempty.spelled hopening hending hlast) _ (hmore _ _) rfl
  | documentStart hstream =>
      have hopening := Opening.mk hstream hstart rfl
      exact begins_of_spelled (hempty.spelled hopening hending hlast) _ (hmore _ _) rfl
  | @node stream document hopening stack hstack =>
      cases stack with
      | nil => exact begins_of_spelled (hempty.spelled hopening hending hlast) _ (hmore _ _) rfl
      | cons top below =>
          obtain ⟨tree, rest, htree, -, hevents⟩ := OpenStack.close below top hstack
          refine begins_of_spelled (htree.spelled hopening hending hlast)
            (rest ++ [{ kind := .documentEnd }, { kind := .streamEnd }]) (by simp) ?_
          simp only [DocumentEvents.serialize, hevents, List.append_assoc, List.cons_append]
  | documentEnd hopening htree =>
      exact begins_of_spelled (htree.spelled hopening hending hlast) _ (hmore _ _) rfl
  | streamEnd hopening htree hending =>
      refine begins_of_spelled (htree.spelled hopening hending hlast) [{ kind := .streamEnd }]
        (hmore _ _) ?_
      simp only [DocumentEvents.serialize, List.cons_append, List.append_assoc, List.nil_append]
  | done => exact absurd rfl (hphase _)

/-! ### The scan takes every event of a document -/

/-- An event that opens a node is taken wherever a node is expected. -/
theorem scanStep_first {kind : NodeKind} {event : YamlEvent} (hopens : Opens kind event)
    (hscalar : event.kind = .scalar → event.value.length ≤ limits.maximumScalarBytes)
    {stack : List Frame} {nodes : Nat} (hdepth : stack.length + 1 ≤ limits.maximumDepth)
    (hnodes : nodes < limits.maximumNodes) :
    ScanStep origin limits ⟨expecting stack, nodes⟩ event
      ⟨openNode kind event stack, nodes + 1⟩ := by
  have hnode : scanNode origin limits stack nodes event =
      .ok ⟨openNode kind event stack, nodes + 1⟩ :=
    scanNode_eq_ok_iff.mpr ⟨kind, hopens, hdepth, hnodes, rfl⟩
  cases stack with
  | nil =>
      refine ⟨fun root hroot => ScanPhase.noConfusion hroot, hscalar, ?_⟩
      have hend := (ends_nothing_of_node hopens.node .sequence).2
      rw [not_or] at hend
      simp only [expecting, scanEvent]
      rw [if_neg hend.2]
      exact hnode
  | cons top below =>
      refine ⟨fun root hroot => ScanPhase.noConfusion hroot, hscalar, ?_⟩
      have hends := ends_nothing_of_node hopens.node top.kind
      simp only [expecting, scanEvent]
      rw [if_neg hends.1, if_neg hends.2]
      exact hnode

/-- The event that ends a collection, once its children are complete. -/
theorem scanStep_last {kind : NodeKind} {first last : YamlEvent} {children : List EventTree}
    (h : (EventTree.collection kind first children last).Admitted limits) {stack : List Frame}
    {nodes : Nat} :
    ScanStep origin limits
      ⟨.inside ⟨kind, first.mark, children.map EventTree.toNode⟩ stack, nodes⟩ last
      ⟨completeNode (EventTree.collection kind first children last).toNode stack, nodes⟩ := by
  have hends := (opens_of_admitted h).2.2
  refine ⟨fun root hroot => ScanPhase.noConfusion hroot, fun hscalar => ?_, ?_⟩
  · rw [hscalar] at hends
    cases kind <;> cases hends
  · have hclose : closeFrame origin ⟨kind, first.mark, children.map EventTree.toNode⟩ stack =
        .ok (completeNode (EventTree.collection kind first children last).toNode stack) := by
      rw [closeFrame_eq_ok_iff, EventTree.toNode_collection, List.length_map]
      exact ⟨h.paired, rfl⟩
    simp only [scanEvent]
    rw [if_pos hends, hclose]
    rfl

theorem Finished.child {height : Nat} {kind : NodeKind} {first last : YamlEvent}
    {children : List EventTree} (h : Finished limits height (.collection kind first children last))
    {child : EventTree} (hchild : child ∈ children) : Finished limits (height + 1) child := by
  have hdepth := h.depth
  have hdeeper := depth_lt_collection kind first last hchild
  refine ⟨fun subtree hsubtree => h.admitted subtree ?_, by omega⟩
  rw [EventTree.subtrees_collection]
  exact List.mem_cons_of_mem _ (List.mem_flatMap.mpr ⟨child, hchild, hsubtree⟩)

/-- Wherever a node is expected, the scan goes over the tree and completes it. -/
def ScansTree (origin : SourceOrigin) (limits : ParseLimits) (tree : EventTree) : Prop :=
  ∀ (stack : List Frame) (nodes : Nat), Finished limits stack.length tree →
    nodes + tree.subtrees.length ≤ limits.maximumNodes →
    Scans origin limits ⟨expecting stack, nodes⟩ tree.serialize
      ⟨completeNode tree.toNode stack, nodes + tree.subtrees.length⟩

theorem scans_forest {kind : NodeKind} {mark : SourceMark} {below : List Frame}
    (children : List EventTree) (hscans : ∀ child ∈ children, ScansTree origin limits child)
    (hfinished : ∀ child ∈ children, Finished limits (below.length + 1) child) :
    ∀ (before : List Node) (nodes : Nat),
      nodes + (children.flatMap EventTree.subtrees).length ≤ limits.maximumNodes →
      Scans origin limits ⟨.inside ⟨kind, mark, before⟩ below, nodes⟩
        (children.flatMap EventTree.serialize)
        ⟨.inside ⟨kind, mark, before ++ children.map EventTree.toNode⟩ below,
          nodes + (children.flatMap EventTree.subtrees).length⟩ := by
  induction children with
  | nil =>
      intro before nodes _
      rw [List.map_nil, List.append_nil]
      exact Run.nil
  | cons child rest ih =>
      intro before nodes hnodes
      have hlength : ((child :: rest).flatMap EventTree.subtrees).length =
          child.subtrees.length + (rest.flatMap EventTree.subtrees).length := by
        rw [List.flatMap_cons, List.length_append]
      rw [hlength] at hnodes ⊢
      have hfirst := hscans child List.mem_cons_self (⟨kind, mark, before⟩ :: below) nodes
        (hfinished child List.mem_cons_self) (by omega)
      have hrest := ih (fun other h => hscans other (List.mem_cons_of_mem child h))
        (fun other h => hfinished other (List.mem_cons_of_mem child h)) (before ++ [child.toNode])
        (nodes + child.subtrees.length) (by omega)
      rw [List.append_assoc, Nat.add_assoc] at hrest
      exact hfirst.append hrest

theorem scans_tree (tree : EventTree) : ScansTree origin limits tree := by
  induction tree using EventTree.induction with
  | scalar event =>
      intro stack nodes htree hnodes
      have hadmitted := htree.admitted _ (EventTree.self_mem_subtrees _)
      have hopens : Opens .scalar event := ⟨nodeKind?_eq_some_scalar.mpr hadmitted.bracketed,
        hadmitted.plain.1, permittedTag_iff.mpr hadmitted.plain.2⟩
      exact Run.single (scanStep_first hopens (scalar_of_admitted hadmitted) htree.depth hnodes)
  | collection kind first children last ih =>
      intro stack nodes htree hnodes
      have hadmitted := htree.admitted _ (EventTree.self_mem_subtrees _)
      obtain ⟨hopens, hcollection, -⟩ := opens_of_admitted hadmitted
      have hdepth := htree.depth
      have hself := one_le_depth (.collection kind first children last)
      have hlength : (EventTree.collection kind first children last).subtrees.length =
          1 + (children.flatMap EventTree.subtrees).length := by
        rw [EventTree.subtrees_collection, List.length_cons, Nat.add_comm]
      rw [hlength, ← Nat.add_assoc] at hnodes ⊢
      have hfirst := @scanStep_first origin limits kind first hopens
        (scalar_of_admitted hadmitted) stack nodes (by omega) (by omega)
      rw [openNode, if_neg hcollection] at hfirst
      have hchildren := @scans_forest origin limits kind first.mark stack children ih
        (fun child hchild => htree.child hchild) [] (nodes + 1) hnodes
      rw [EventTree.serialize_collection]
      exact Run.cons hfirst (hchildren.snoc (scanStep_last hadmitted))

theorem finished_of_spelled {document : DocumentEvents} (h : SpelledDocument limits document) :
    Finished limits 0 document.root := by
  refine ⟨fun tree htree => ⟨h.bracketed tree htree, h.plain tree htree, h.scalars tree htree,
    h.paired tree htree⟩, ?_⟩
  rw [Nat.zero_add]
  exact h.depth

theorem scans_opening {stream document : YamlEvent} (h : Opening stream document) :
    Scans origin limits {} [stream, document] ⟨.root, 0⟩ := by
  have hstream : ScanStep origin limits {} stream ⟨.documentStart, 0⟩ := by
    refine ⟨fun root => ScanPhase.noConfusion, by simp [h.streamKind], ?_⟩
    exact if_neg (not_not.mpr h.streamKind)
  have hdocument : ScanStep origin limits ⟨.documentStart, 0⟩ document ⟨.root, 0⟩ := by
    refine ⟨fun root => ScanPhase.noConfusion, by simp [h.documentKind], ?_⟩
    rw [scanEvent, if_neg (not_not.mpr h.documentKind), if_neg (by simp [h.directives])]
    rfl
  exact (Run.single hstream).snoc hdocument

theorem scanStep_documentEnd {ending : YamlEvent} (h : ending.kind = .documentEnd) {root : Node}
    {nodes : Nat} :
    ScanStep origin limits ⟨.documentEnd root, nodes⟩ ending ⟨.streamEnd root, nodes⟩ := by
  refine ⟨fun root => ScanPhase.noConfusion, by simp [h], ?_⟩
  exact if_neg (not_not.mpr h)

theorem scans_document {document : DocumentEvents} (h : SpelledDocument limits document) :
    Scans origin limits {} document.serialize
      ⟨.done document.root.toNode, document.root.subtrees.length⟩ := by
  have hroot := @scans_tree origin limits document.root [] 0 (finished_of_spelled h)
    (by rw [Nat.zero_add]; exact h.nodes)
  rw [Nat.zero_add] at hroot
  have hopening := @scans_opening origin limits _ _
    ⟨h.streamStart, h.documentStart, h.directives⟩
  have hlast : ScanStep origin limits
      ⟨.streamEnd document.root.toNode, document.root.subtrees.length⟩ document.streamEnd
      ⟨.done document.root.toNode, document.root.subtrees.length⟩ := by
    refine ⟨fun root => ScanPhase.noConfusion, by simp [h.streamEnd], ?_⟩
    rw [scanEvent, if_neg (by simp [h.streamEnd]), if_neg (not_not.mpr h.streamEnd)]
    rfl
  have hends := (Run.single (scanStep_documentEnd h.documentEnd)).snoc hlast
  exact hopening.append (hroot.append hends)

/-! ### Where a beginning leads -/

theorem Finished.withNodes {height : Nat} {tree : EventTree} (h : Finished limits height tree)
    (nodes : Nat) : Finished (limits.withNodes nodes) height tree := by
  refine ⟨fun subtree hsubtree => ?_, h.depth⟩
  have hadmitted := h.admitted subtree hsubtree
  exact ⟨hadmitted.bracketed, hadmitted.plain, hadmitted.scalar, hadmitted.paired⟩

/-- Given enough nodes, the scan opens the collections and has them on its stack. -/
theorem scans_openEvents (stack : List OpenTree) : OpenStack limits stack →
    ∃ count, ∀ nodes, count ≤ nodes →
      Scans origin (limits.withNodes nodes) ⟨.root, 0⟩ (openEvents stack)
        ⟨expecting (stack.map OpenTree.frame), count⟩ := by
  induction stack with
  | nil => exact fun _ => ⟨0, fun nodes _ => Run.nil⟩
  | cons tree below ih =>
      intro hstack
      obtain ⟨htree, hbelow⟩ := hstack
      obtain ⟨count, hcount⟩ := ih hbelow
      refine ⟨count + 1 + (tree.children.flatMap EventTree.subtrees).length, fun nodes hnodes => ?_⟩
      have hnotScalar : tree.first.kind ≠ .scalar := by
        intro hscalar
        have hnode := htree.opens.node
        rw [hscalar] at hnode
        exact htree.collection (Option.some.inj hnode).symm
      have hdepth : (below.map OpenTree.frame).length + 1 ≤
          (limits.withNodes nodes).maximumDepth := by
        rw [length_frames]
        exact htree.depth
      have hroom : count < (limits.withNodes nodes).maximumNodes := by
        change count < nodes
        omega
      have hfirst := @scanStep_first origin (limits.withNodes nodes) tree.kind tree.first
        htree.opens (fun hscalar => absurd hscalar hnotScalar) _ _ hdepth hroom
      rw [openNode, if_neg htree.collection] at hfirst
      have hchildren := @scans_forest origin (limits.withNodes nodes) tree.kind tree.first.mark
        (below.map OpenTree.frame) tree.children (fun child _ => scans_tree child)
        (fun child hchild => by
          rw [length_frames]
          exact (htree.children child hchild).withNodes nodes) [] (count + 1) hnodes
      exact (hcount nodes (by omega)).append (Run.cons hfirst hchildren)

/-- Given enough nodes, the scan comes to the phase that the events spell. -/
theorem scans_of_progress {phase : ScanPhase} {events : List YamlEvent}
    (h : Progress limits phase events) (hasks : ∀ root, phase ≠ .done root) :
    ∃ count, ∀ nodes, count ≤ nodes →
      Scans origin (limits.withNodes nodes) {} events ⟨phase, count⟩ := by
  have hroot : ∀ {tree : EventTree} {nodes : Nat}, Finished limits 0 tree →
      tree.subtrees.length ≤ nodes →
      Scans origin (limits.withNodes nodes) ⟨.root, 0⟩ tree.serialize
        ⟨.documentEnd tree.toNode, tree.subtrees.length⟩ := by
    intro tree nodes htree hnodes
    have htaken := @scans_tree origin (limits.withNodes nodes) tree [] 0 (htree.withNodes nodes)
      (by rw [Nat.zero_add]; exact hnodes)
    rw [Nat.zero_add] at htaken
    exact htaken
  cases h with
  | streamStart => exact ⟨0, fun nodes _ => Run.nil⟩
  | documentStart hstream =>
      refine ⟨0, fun nodes _ => Run.single ⟨fun root => ScanPhase.noConfusion, ?_, ?_⟩⟩
      · simp [hstream]
      · exact if_neg (not_not.mpr hstream)
  | node hopening hstack =>
      obtain ⟨count, hcount⟩ := @scans_openEvents origin limits _ hstack
      exact ⟨count, fun nodes hnodes => (scans_opening hopening).append (hcount nodes hnodes)⟩
  | documentEnd hopening htree =>
      exact ⟨_, fun nodes hnodes => (scans_opening hopening).append (hroot htree hnodes)⟩
  | streamEnd hopening htree hending =>
      exact ⟨_, fun nodes hnodes => ((scans_opening hopening).append (hroot htree hnodes)).snoc
        (scanStep_documentEnd hending)⟩
  | done => exact absurd rfl (hasks _)

/-- The events tell the phase: what is still open, with its children so far, is read off them. -/
theorem Progress.unique {phase other : ScanPhase} {events : List YamlEvent}
    (h : Progress limits phase events) (hasks : ∀ root, phase ≠ .done root)
    (h' : Progress limits other events) (hasks' : ∀ root, other ≠ .done root) : phase = other := by
  obtain ⟨count, hcount⟩ := @scans_of_progress ⟨[]⟩ limits _ _ h hasks
  obtain ⟨count', hcount'⟩ := @scans_of_progress ⟨[]⟩ limits _ _ h' hasks'
  have hscan := hcount (max count count') (Nat.le_max_left _ _)
  have hscan' := hcount' (max count count') (Nat.le_max_right _ _)
  have hsame := hscan.unique (fun scan event after after' hstep hstep' =>
    Except.ok.inj (hstep.taken.symm.trans hstep'.taken)) hscan'
  exact congrArg Scan.phase hsame

/-! ### What the scan has opened so far -/

/-- The events around a document open and end no node. -/
def YamlEventKind.frames (kind : YamlEventKind) : Prop :=
  kind = .streamStart ∨ kind = .documentStart ∨ kind = .documentEnd ∨ kind = .streamEnd

/-- What a step can do: take a node, end a collection, or go on around the document. -/
theorem ScanStep.cases {scan after : Scan} {event : YamlEvent}
    (h : ScanStep origin limits scan event after) :
    (∃ stack kind, scan.phase = expecting stack ∧ TakesNode limits stack scan.nodes event kind ∧
        after = ⟨openNode kind event stack, scan.nodes + 1⟩) ∨
      (∃ top below, scan.phase = expecting (top :: below) ∧
        top.kind.endsWith event.kind = true ∧
        after = ⟨completeNode ⟨top.kind, top.mark, [], top.completed⟩ below, scan.nodes⟩) ∨
      (event.kind.frames ∧ scan.phase.height = 0 ∧ after.phase.height = 0 ∧
        after.nodes = scan.nodes) := by
  obtain ⟨phase, nodes⟩ := scan
  have htaken := h.taken
  have hexpecting : ∀ stack : List Frame, phase = expecting stack →
      (∃ stack kind, phase = expecting stack ∧ TakesNode limits stack nodes event kind ∧
          after = ⟨openNode kind event stack, nodes + 1⟩) ∨
        (∃ top below, phase = expecting (top :: below) ∧ top.kind.endsWith event.kind = true ∧
          after = ⟨completeNode ⟨top.kind, top.mark, [], top.completed⟩ below, nodes⟩) := by
    rintro stack rfl
    rcases scanEvent_expecting htaken with ⟨kind, htakes, hafter⟩ | hcloses
    · exact Or.inl ⟨stack, kind, rfl, htakes, hafter⟩
    · obtain ⟨top, below, rfl, hends, -, hafter⟩ := hcloses
      exact Or.inr ⟨top, below, rfl, hends, hafter⟩
  cases phase with
  | streamStart =>
      simp only [scanEvent, scanFail, ite_throw_eq_ok, pure_eq_ok, not_not] at htaken
      obtain ⟨hkind, rfl⟩ := htaken
      exact Or.inr (Or.inr ⟨Or.inl hkind, rfl, rfl, rfl⟩)
  | documentStart =>
      simp only [scanEvent, scanFail, ite_throw_eq_ok, pure_eq_ok, not_not] at htaken
      obtain ⟨hkind, -, rfl⟩ := htaken
      exact Or.inr (Or.inr ⟨Or.inr (Or.inl hkind), rfl, rfl, rfl⟩)
  | root => exact (hexpecting [] rfl).imp_right Or.inl
  | inside top below => exact (hexpecting (top :: below) rfl).imp_right Or.inl
  | documentEnd root =>
      simp only [scanEvent, scanFail, ite_throw_eq_ok, pure_eq_ok, not_not] at htaken
      obtain ⟨hkind, rfl⟩ := htaken
      exact Or.inr (Or.inr ⟨Or.inr (Or.inr (Or.inl hkind)), rfl, rfl, rfl⟩)
  | streamEnd root =>
      simp only [scanEvent, scanFail, ite_throw_eq_ok, pure_eq_ok, not_not] at htaken
      obtain ⟨-, hkind, rfl⟩ := htaken
      exact Or.inr (Or.inr ⟨Or.inr (Or.inr (Or.inr hkind)), rfl, rfl, rfl⟩)
  | done root => exact absurd rfl (h.asks root)

@[simp] theorem height_expecting (stack : List Frame) :
    (expecting stack).height = stack.length := by
  cases stack <;> rfl

@[simp] theorem height_completeNode (node : Node) (stack : List Frame) :
    (completeNode node stack).height = stack.length := by
  cases stack <;> rfl

theorem height_openNode (kind : NodeKind) (event : YamlEvent) (stack : List Frame) :
    (openNode kind event stack).height = stack.length + if kind = .scalar then 0 else 1 := by
  unfold openNode
  by_cases hscalar : kind = .scalar
  · rw [if_pos hscalar, if_pos hscalar, height_completeNode, Nat.add_zero]
  · rw [if_neg hscalar, if_neg hscalar]
    rfl

/-! ### Its nodes and its depth -/

theorem opened_append (left right : List YamlEvent) :
    opened (left ++ right) = opened left + opened right := List.countP_append

theorem opened_singleton_of_opens {kind : NodeKind} {event : YamlEvent} (h : Opens kind event) :
    opened [event] = 1 := by
  simp [opened, h.node]

theorem opened_singleton_of_ends {kind : NodeKind} {event : YamlEvent}
    (h : kind.endsWith event.kind = true) : opened [event] = 0 := by
  cases hkind : event.kind <;> rw [hkind] at h <;> cases kind <;>
    simp_all [opened, NodeKind.endsWith, YamlEventKind.nodeKind?]

theorem opened_singleton_of_frames {event : YamlEvent} (h : event.kind.frames) :
    opened [event] = 0 := by
  rcases h with h | h | h | h <;> simp [opened, h, YamlEventKind.nodeKind?]

theorem descent_append (events : List YamlEvent) (event : YamlEvent) :
    descent (events ++ [event]) = (descent events).take event := by
  rw [descent, List.foldl_append]
  rfl

theorem Descent.take_of_opens {kind : NodeKind} {event : YamlEvent} (h : Opens kind event)
    (descent : Descent) :
    descent.take event = ⟨descent.level + if kind = .scalar then 0 else 1,
      max descent.deepest (descent.level + 1)⟩ := by
  have hnode := h.node
  unfold Descent.take
  cases hkind : event.kind <;> rw [hkind] at hnode <;> cases hnode <;> rfl

theorem Descent.take_of_ends {kind : NodeKind} {event : YamlEvent}
    (h : kind.endsWith event.kind = true) (descent : Descent) :
    descent.take event = { descent with level := descent.level - 1 } := by
  unfold Descent.take
  cases hkind : event.kind <;> rw [hkind] at h <;> cases kind <;> cases h

theorem Descent.take_of_frames {event : YamlEvent} (h : event.kind.frames) (descent : Descent) :
    descent.take event = descent := by
  unfold Descent.take
  rcases h with h | h | h | h <;> rw [h]

/-- A descent only ever grows deeper. -/
theorem Descent.deepest_le_take (descent : Descent) (event : YamlEvent) :
    descent.deepest ≤ (descent.take event).deepest := by
  have hmax := Nat.le_max_left descent.deepest (descent.level + 1)
  unfold Descent.take
  cases event.kind <;> first | exact Nat.le_refl _ | exact hmax

/-- What the scan has counted and stacked is what the events so far have opened. -/
structure Counted (limits : ParseLimits) (events : List YamlEvent) (scan : Scan) : Prop where
  nodes : scan.nodes = opened events
  level : scan.phase.height = (descent events).level
  bounded : scan.nodes ≤ limits.maximumNodes
  deepest : nesting events ≤ limits.maximumDepth

theorem Counted.step {events : List YamlEvent} {scan after : Scan} {event : YamlEvent}
    (h : Counted limits events scan) (hstep : ScanStep origin limits scan event after) :
    Counted limits (events ++ [event]) after := by
  obtain ⟨hnodes, hlevel, hbounded, hdeepest⟩ := h
  unfold nesting at hdeepest
  rcases hstep.cases with ⟨stack, kind, hphase, htakes, rfl⟩ | hcloses | hframes
  · have hdescent := Descent.take_of_opens htakes.opens (descent events)
    rw [hphase, height_expecting] at hlevel
    refine ⟨?_, ?_, htakes.nodes, ?_⟩
    · rw [opened_append, opened_singleton_of_opens htakes.opens, hnodes]
    · rw [descent_append, hdescent, height_openNode, hlevel]
    · rw [nesting, descent_append, hdescent, ← hlevel]
      exact Nat.max_le.mpr ⟨hdeepest, htakes.depth⟩
  · obtain ⟨top, below, hphase, hends, rfl⟩ := hcloses
    have hdescent := Descent.take_of_ends hends (descent events)
    rw [hphase, height_expecting, List.length_cons] at hlevel
    refine ⟨?_, ?_, hbounded, ?_⟩
    · rw [opened_append, opened_singleton_of_ends hends, hnodes]
      rfl
    · rw [descent_append, hdescent, height_completeNode, ← hlevel, Nat.add_sub_cancel]
    · rw [nesting, descent_append, hdescent]
      exact hdeepest
  · obtain ⟨hkind, hbefore, hafter, hsame⟩ := hframes
    have hdescent := Descent.take_of_frames hkind (descent events)
    refine ⟨?_, ?_, ?_, ?_⟩
    · rw [opened_append, opened_singleton_of_frames hkind, hsame, hnodes]
      rfl
    · rw [descent_append, hdescent, hafter, ← hlevel, hbefore]
    · rw [hsame]
      exact hbounded
    · rw [nesting, descent_append, hdescent]
      exact hdeepest

theorem counted_of_scans {events : List YamlEvent} {scan : Scan}
    (h : Scans origin limits {} events scan) : Counted limits events scan :=
  h.invariant (I := Counted limits) ⟨rfl, rfl, Nat.zero_le _, Nat.zero_le _⟩
    fun _ _ _ _ hcounted hstep => hcounted.step hstep

/-! ### Other ceilings -/

/-- A step depends on the node and depth ceilings only by keeping within them. -/
theorem ScanStep.within {wider : ParseLimits} {scan after : Scan} {event : YamlEvent}
    (h : ScanStep origin wider scan event after)
    (hscalar : wider.maximumScalarBytes = limits.maximumScalarBytes)
    (hnodes : after.nodes ≤ limits.maximumNodes)
    (hdepth : event.kind.nodeKind?.isSome → scan.phase.height + 1 ≤ limits.maximumDepth) :
    ScanStep origin limits scan event after := by
  refine ⟨h.asks, hscalar ▸ h.scalar, ?_⟩
  have htaken := h.taken
  obtain ⟨phase, count⟩ := scan
  have hnode : ∀ stack, phase = expecting stack →
      scanNode origin wider stack count event = .ok after →
      scanNode origin limits stack count event = .ok after := by
    rintro stack rfl hscan
    obtain ⟨kind, hopens, -, -, rfl⟩ := scanNode_eq_ok_iff.mp hscan
    rw [height_expecting] at hdepth
    have hisSome : event.kind.nodeKind?.isSome := by rw [hopens.node]; rfl
    exact scanNode_eq_ok_iff.mpr ⟨kind, hopens, hdepth hisSome, hnodes, rfl⟩
  cases phase with
  | root =>
      simp only [scanEvent, scanFail, ite_throw_eq_ok] at htaken ⊢
      exact ⟨htaken.1, hnode [] rfl htaken.2⟩
  | inside top below =>
      simp only [scanEvent] at htaken ⊢
      by_cases hends : top.kind.endsWith event.kind = true
      · rw [if_pos hends] at htaken ⊢
        exact htaken
      · rw [if_neg hends] at htaken ⊢
        simp only [scanFail, ite_throw_eq_ok] at htaken ⊢
        exact ⟨htaken.1, hnode (top :: below) rfl htaken.2⟩
  | _ => exact htaken

/-- Within other ceilings the scan takes the same events. -/
theorem scans_within {wider : ParseLimits} {events : List YamlEvent} {scan : Scan}
    (h : Scans origin wider {} events scan)
    (hscalar : wider.maximumScalarBytes = limits.maximumScalarBytes)
    (hnodes : opened events ≤ limits.maximumNodes) (hdepth : nesting events ≤ limits.maximumDepth) :
    Scans origin limits {} events scan := by
  induction h with
  | nil => exact Run.nil
  | @snoc events event scan after hrun hstep ih =>
      have hbefore := counted_of_scans hrun
      have hafter := hbefore.step hstep
      have hfewer : opened events ≤ opened (events ++ [event]) := by
        rw [opened_append]
        exact Nat.le_add_right _ _
      have hdeeper : nesting events ≤ nesting (events ++ [event]) := by
        rw [nesting, nesting, descent_append]
        exact Descent.deepest_le_take _ event
      refine (ih (by omega) (by omega)).snoc (hstep.within hscalar ?_ fun hopens => ?_)
      · rw [hafter.nodes]
        exact hnodes
      · rcases hstep.cases with ⟨stack, kind, hphase, htakes, -⟩ | hcloses | ⟨hframes, -⟩
        · have hmax := Nat.le_max_right (descent events).deepest ((descent events).level + 1)
          rw [nesting, descent_append, Descent.take_of_opens htakes.opens] at hdepth
          rw [hbefore.level]
          exact Nat.le_trans hmax hdepth
        · obtain ⟨top, below, -, hends, -⟩ := hcloses
          have hnone := opened_singleton_of_ends hends
          simp [opened, hopens] at hnone
        · have hnone := opened_singleton_of_frames hframes
          simp [opened, hopens] at hnone

/-! ### What the scan takes -/

/-- The scan has taken these events, and asks for one more. -/
def TakesAll (origin : SourceOrigin) (limits : ParseLimits) (events : List YamlEvent) : Prop :=
  ∃ scan, Scans origin limits {} events scan ∧ ∀ root, scan.phase ≠ .done root

/-- The ceilings bound what the events have opened so far, and a document within any ceilings goes
on from there. -/
theorem takesAll_iff {events : List YamlEvent} :
    TakesAll origin limits events ↔
      (∃ nodes depth, Begins ((limits.withNodes nodes).withDepth depth) events) ∧
        opened events ≤ limits.maximumNodes ∧ nesting events ≤ limits.maximumDepth := by
  constructor
  · rintro ⟨scan, hscans, hphase⟩
    have hcounted := counted_of_scans hscans
    have hnodes : opened events ≤ limits.maximumNodes := hcounted.nodes ▸ hcounted.bounded
    -- one level more, so that there is a root even under a zero depth ceiling
    have hwider : Scans origin (limits.withDepth (limits.maximumDepth + 1)) {} events scan :=
      scans_within hscans rfl hnodes (Nat.le_succ_of_le hcounted.deepest)
    obtain ⟨nodes, hbegins⟩ := (progress_of_scans hwider).begins hphase (Nat.succ_pos _)
    exact ⟨⟨nodes, limits.maximumDepth + 1, hbegins⟩, hnodes, hcounted.deepest⟩
  · rintro ⟨⟨nodes, depth, document, rest, hspelled, hrest, hevents⟩, hnodes, hdepth⟩
    have hscans := @scans_document origin _ _ hspelled
    rw [hevents] at hscans
    obtain ⟨scan, hleft, hright⟩ := hscans.split
    obtain ⟨event, others, rfl⟩ := List.exists_cons_of_ne_nil hrest
    obtain ⟨after, hstep, -⟩ := hright.of_cons
    exact ⟨scan, scans_within hleft rfl hnodes hdepth, hstep.asks⟩

end PkgsourceYaml
