import PkgsourceYaml.Scan
import PkgsourceYaml.Proof.Envelope

/-!
# The recursive reader is the flat scan

Each call of `parse_node` and each turn of its loop is a stretch of the scan, over the same calls of
`next()`. The path and the depth that the reader passes down are the ones the scan reads off its
stack, so both meet the first offending event in the same way.
-/

namespace PkgsourceYaml

open Throwing

variable {input : Input} {origin : SourceOrigin} {limits : ParseLimits}

/-- Going on from `start` after the calls of `state`, the scan comes to `finish` after the calls of
`after`, whatever budget is left then. -/
def Arrives (input : Input) (origin : SourceOrigin) (limits : ParseLimits)
    (start finish : Except Exception Scan) (state after : ParseState) : Prop :=
  ∃ calls, after.calls = state.calls + calls ∧ ∀ more,
    (start >>= scanFrom origin limits input (calls + more) state.calls) =
      (finish >>= scanFrom origin limits input more after.calls)

section

variable {start middle finish : Except Exception Scan} {state between after : ParseState}

theorem Arrives.refl (h : after.calls = state.calls) :
    Arrives input origin limits start start state after :=
  ⟨0, h, fun more => by rw [h, Nat.zero_add]⟩

theorem Arrives.trans (h : Arrives input origin limits start middle state between)
    (hnext : Arrives input origin limits middle finish between after) :
    Arrives input origin limits start finish state after := by
  obtain ⟨calls, hcalls, hstart⟩ := h
  obtain ⟨others, hothers, hmiddle⟩ := hnext
  refine ⟨calls + others, by omega, fun more => ?_⟩
  calc start >>= scanFrom origin limits input (calls + others + more) state.calls
      = middle >>= scanFrom origin limits input (others + more) between.calls := by
        rw [Nat.add_assoc]
        exact hstart (others + more)
    _ = finish >>= scanFrom origin limits input more after.calls := hmiddle more

theorem scanFrom_step {phase : ScanPhase} {nodes budget index : Nat}
    (hphase : ∀ root, phase ≠ .done root) :
    scanFrom origin limits input (budget + 1) index ⟨phase, nodes⟩ = (do
      let event ← nextResult input origin limits index
      let scan ← scanEvent origin limits event nodes phase
      scanFrom origin limits input budget (index + 1) scan) := by
  cases phase with
  | done root => exact absurd rfl (hphase root)
  | _ => rfl

/-- One event: the scan takes one step. -/
theorem Arrives.event {phase : ScanPhase} {nodes : Nat} {event : YamlEvent}
    (h : Arrives input origin limits start (.ok ⟨phase, nodes⟩) state between)
    (hphase : ∀ root, phase ≠ .done root)
    (hevent : nextResult input origin limits between.calls = .ok event) :
    Arrives input origin limits start (scanEvent origin limits event nodes phase) state
      (between.pulled (.ok event)) := by
  refine h.trans ⟨1, rfl, fun more => ?_⟩
  rw [bind_of_ok rfl, Nat.add_comm, scanFrom_step hphase, bind_of_ok hevent]
  rfl

theorem Arrives.failed {phase : ScanPhase} {nodes : Nat} {exception : Exception}
    (h : Arrives input origin limits start (.ok ⟨phase, nodes⟩) state between)
    (hphase : ∀ root, phase ≠ .done root)
    (herror : nextResult input origin limits between.calls = .error exception) :
    Arrives input origin limits start (.error exception) state
      (between.pulled (.error exception)) := by
  refine h.trans ⟨1, rfl, fun more => ?_⟩
  rw [bind_of_ok rfl, Nat.add_comm, scanFrom_step hphase, herror]
  rfl

end

/-- A run that arrives where the scan throws: the exceptions are the same. -/
def Stops (input : Input) (origin : SourceOrigin) (limits : ParseLimits)
    (start : Except Exception Scan) (state : ParseState) (exception : Exception)
    (after : ParseState) : Prop :=
  exception = .fuel ∨ Arrives input origin limits start (.error exception) state after

theorem Arrives.stops {start middle : Except Exception Scan} {state between after : ParseState}
    {exception : Exception} (h : Arrives input origin limits start middle state between)
    (hstops : Stops input origin limits middle between exception after) :
    Stops input origin limits start state exception after :=
  hstops.imp_right h.trans

/-- A call of `next()` is a step of the scan, whichever way it ends. -/
theorem meets_next_scans {start : Except Exception Scan} {phase : ScanPhase} {nodes : Nat}
    {state between : ParseState} {Q : YamlEvent → ParseState → Prop}
    (h : Arrives input origin limits start (.ok ⟨phase, nodes⟩) state between)
    (hphase : ∀ root, phase ≠ .done root)
    (hok : ∀ event, Arrives input origin limits start (scanEvent origin limits event nodes phase)
      state (between.pulled (.ok event)) → Q event (between.pulled (.ok event))) :
    Meets (next input origin limits) between Q (Stops input origin limits start state) :=
  meets_next (fun event hevent => hok event (h.event hphase hevent)) fun _ herror =>
    Or.inr (h.failed hphase herror)

/-- The scan after a clean opening event. -/
def openNode (kind : NodeKind) (event : YamlEvent) (stack : List Frame) : ScanPhase :=
  if kind = .scalar then completeNode ⟨kind, event.mark, event.value, []⟩ stack
  else .inside ⟨kind, event.mark, []⟩ stack

/-- `admitNode` runs the tests of the scan, in its order. -/
theorem admitNode_scans {first : YamlEvent} {stack : List Frame} {state : ParseState} :
    Meets (admitNode origin limits first (nextPath stack) (stack.length + 1)) state
      (fun kind after => after.calls = state.calls ∧
        scanNode origin limits stack state.nodes first =
          .ok ⟨openNode kind first stack, after.nodes⟩)
      (fun exception after => after.calls = state.calls ∧
        scanNode origin limits stack state.nodes first = .error exception) := by
  unfold admitNode scanNode
  refine Meets.bind (Meets.modify ?_)
  by_cases halias : first.kind = .alias
  · rw [if_pos halias, if_pos halias]
    exact Meets.throw ⟨rfl, rfl⟩
  rw [if_neg halias, if_neg halias]
  cases first.kind.nodeKind? with
  | none => exact Meets.throw ⟨rfl, rfl⟩
  | some kind =>
      by_cases hanchor : first.anchor ≠ []
      · simp only [if_pos hanchor]
        exact Meets.throw ⟨rfl, rfl⟩
      by_cases htag : permittedTag kind first.tag = false
      · simp only [if_neg hanchor, if_pos htag]
        exact Meets.throw ⟨rfl, rfl⟩
      simp only [if_neg hanchor, if_neg htag]
      apply Meets.bind
      unfold accountNode
      by_cases hdepth : limits.maximumDepth < stack.length + 1
      · simp only [if_pos hdepth]
        exact Meets.throw ⟨rfl, rfl⟩
      simp only [if_neg hdepth]
      apply Meets.bind
      change Meets (if limits.maximumNodes ≤ state.nodes then _ else _) _ _ _
      by_cases hnodes : limits.maximumNodes ≤ state.nodes
      · simp only [if_pos hnodes]
        exact Meets.throw ⟨rfl, rfl⟩
      simp only [if_neg hnodes]
      refine Meets.modify (Meets.bind (Meets.modify (Meets.pure ⟨rfl, ?_⟩)))
      unfold openNode
      by_cases hscalar : kind = .scalar
      · simp only [if_pos hscalar]
        rfl
      · simp only [if_neg hscalar]
        rfl

/-- What the scan does with a collection once its remaining children are complete. -/
def finishFrame (origin : SourceOrigin) (top : Frame) (rest : List Node) (below : List Frame)
    (nodes : Nat) : Except Exception Scan := do
  let phase ← closeFrame origin ⟨top.kind, top.mark, top.completed ++ rest⟩ below
  pure ⟨phase, nodes⟩

theorem parse_scans :
    (∀ fuel first path depth, ∀ (stack : List Frame) (state : ParseState),
      path = nextPath stack → depth = stack.length + 1 →
      Meets (parseNode input origin limits fuel first path depth) state
        (fun node after => Arrives input origin limits
          (scanNode origin limits stack state.nodes first)
          (.ok ⟨completeNode node stack, after.nodes⟩) state after)
        (Stops input origin limits (scanNode origin limits stack state.nodes first) state)) ∧
    ∀ fuel kind path depth index, ∀ (top : Frame) (below : List Frame) (state : ParseState),
      top.kind = kind → path = nextPath below → depth = below.length + 1 →
      index = top.completed.length →
      Meets (parseChildren input origin limits fuel kind path depth index) state
        (fun rest after => Arrives input origin limits (.ok ⟨.inside top below, state.nodes⟩)
          (finishFrame origin top rest below after.nodes) state after)
        (Stops input origin limits (.ok ⟨.inside top below, state.nodes⟩) state) := by
  apply parseNode.mutual_induct
  · intro first path depth stack state _ _
    exact Meets.throw (Or.inl rfl)
  · rintro fuel first _ _ ih stack state rfl rfl
    rw [Nat.succ_eq_add_one, parseNode]
    refine Meets.bind (Meets.mono admitNode_scans (fun kind admitted _ hadmitted => ?_)
      fun exception after _ hrejected => ?_)
    · obtain ⟨hcalls, hscan⟩ := hadmitted
      rw [hscan]
      have hopened : Arrives input origin limits
          (.ok ⟨openNode kind first stack, admitted.nodes⟩)
          (.ok ⟨openNode kind first stack, admitted.nodes⟩) state admitted := Arrives.refl hcalls
      refine Meets.ite (fun hscalar => ?_) fun hcollection => ?_
      · subst hscalar
        exact Meets.pure hopened
      · have hinside : openNode kind first stack = .inside ⟨kind, first.mark, []⟩ stack :=
          if_neg hcollection
        rw [hinside] at hopened ⊢
        have hchildren := ih kind ⟨kind, first.mark, []⟩ stack admitted rfl rfl rfl rfl
        refine Meets.bind (Meets.mono hchildren (fun children after _ hafter => ?_)
          fun exception after _ hafter => ?_)
        · have harrives := hopened.trans hafter
          rw [finishFrame, List.nil_append, closeFrame] at harrives
          by_cases hodd : kind = .mapping ∧ children.length % 2 ≠ 0
          · rw [if_pos hodd] at harrives ⊢
            exact Meets.throw (Or.inr harrives)
          · rw [if_neg hodd] at harrives ⊢
            exact Meets.pure harrives
        · exact hopened.stops hafter
    · obtain ⟨hcalls, hscan⟩ := hrejected
      rw [hscan]
      exact Or.inr (Arrives.refl hcalls)
  · intro kind path depth index top below state _ _ _ _
    exact Meets.throw (Or.inl rfl)
  · rintro fuel _ _ _ _ ihNode ihRest top below state rfl rfl rfl rfl
    have hphase : ∀ root, ScanPhase.inside top below ≠ .done root := fun _ => by simp
    rw [Nat.succ_eq_add_one, parseChildren]
    refine Meets.bind (meets_next_scans (Arrives.refl rfl) hphase fun event hstep => ?_)
    rw [scanEvent] at hstep
    refine Meets.ite (fun hends => ?_) fun hmore => ?_
    · rw [if_pos hends] at hstep
      apply Meets.pure
      rw [finishFrame, List.append_nil]
      exact hstep
    rw [if_neg hmore] at hstep
    refine Meets.ite (fun hcut => ?_) fun hnode => ?_
    · rw [if_pos hcut] at hstep
      exact Meets.throw (Or.inr hstep)
    rw [if_neg hnode] at hstep
    have hchild := ihNode event (top :: below) (state.pulled (.ok event)) rfl rfl
    refine Meets.bind (Meets.mono hchild (fun child middle _ hmiddle => ?_)
      fun exception after _ hafter => hstep.stops hafter)
    have hrest := ihRest (top.add child) below middle rfl rfl rfl (by simp [Frame.add])
    refine Meets.bind (Meets.mono hrest (fun rest after _ hafter => ?_)
      fun exception after _ hafter => (hstep.trans hmiddle).stops hafter)
    have harrives := (hstep.trans hmiddle).trans hafter
    apply Meets.pure
    rw [finishFrame, Frame.add, List.append_assoc] at harrives
    exact harrives

/-- The two events after the root. -/
theorem readEnd_scans {start : Except Exception Scan} {root : Node} {nodes : Nat}
    {state between : ParseState}
    (h : Arrives input origin limits start (.ok ⟨.documentEnd root, nodes⟩) state between) :
    Meets (readTree.readEnd input origin limits) between
      (fun _ after => Arrives input origin limits start (.ok ⟨.done root, nodes⟩) state after)
      (Stops input origin limits start state) := by
  unfold readTree.readEnd
  refine Meets.bind (meets_next_scans h (by simp) fun event hfirst => ?_)
  rw [scanEvent] at hfirst
  refine Meets.ite (fun hkind => ?_) fun hkind => ?_
  · rw [if_pos hkind] at hfirst
    exact Meets.throw (Or.inr hfirst)
  rw [if_neg hkind] at hfirst
  refine Meets.bind (meets_next_scans hfirst (by simp) fun last hsecond => ?_)
  rw [scanEvent] at hsecond
  refine Meets.ite (fun hkind => ?_) fun hkind => ?_
  · rw [if_pos hkind] at hsecond
    exact Meets.throw (Or.inr hsecond)
  rw [if_neg hkind] at hsecond
  refine Meets.ite (fun hkind => ?_) fun hkind => ?_
  · rw [if_pos hkind] at hsecond
    exact Meets.throw (Or.inr hsecond)
  rw [if_neg hkind] at hsecond
  exact Meets.pure hsecond

theorem readEvents_scans {fuel : Nat} (hbytes : ¬limits.maximumDocumentBytes < input.byteLength) :
    Meets (readTree input origin limits fuel) {}
      (fun root after => ∃ nodes, Arrives input origin limits (.ok {}) (.ok ⟨.done root, nodes⟩) {}
        after)
      (Stops input origin limits (.ok {}) {}) := by
  unfold readTree
  rw [if_neg hbytes]
  refine Meets.bind (meets_next_scans (Arrives.refl rfl) (by simp) fun streamStart hstream => ?_)
  rw [scanEvent] at hstream
  refine Meets.ite (fun hkind => ?_) fun hkind => ?_
  · rw [if_pos hkind] at hstream
    exact Meets.throw (Or.inr hstream)
  rw [if_neg hkind] at hstream
  refine Meets.bind (meets_next_scans hstream (by simp) fun documentStart hdocument => ?_)
  rw [scanEvent] at hdocument
  refine Meets.ite (fun hkind => ?_) fun hkind => ?_
  · rw [if_pos hkind] at hdocument
    exact Meets.throw (Or.inr hdocument)
  rw [if_neg hkind] at hdocument
  refine Meets.ite (fun hdirectives => ?_) fun hdirectives => ?_
  · rw [if_pos hdirectives] at hdocument
    exact Meets.throw (Or.inr hdocument)
  rw [if_neg hdirectives] at hdocument
  refine Meets.bind (meets_next_scans hdocument (by simp) fun first hopened => ?_)
  rw [scanEvent] at hopened
  refine Meets.ite (fun hempty => ?_) fun hnode => ?_
  · rw [if_pos hempty] at hopened
    exact Meets.throw (Or.inr hopened)
  rw [if_neg hnode] at hopened
  refine Meets.bind (Meets.mono (parse_scans.1 fuel first _ 1 [] _ rfl rfl)
    (fun root read _ hroot => ?_) fun exception after _ hafter => hopened.stops hafter)
  exact Meets.bind (Meets.mono (readEnd_scans (hopened.trans hroot))
    (fun _ after _ hafter => Meets.pure ⟨_, hafter⟩) fun _ _ _ h => h)

theorem scanDocument_of_arrives {result : Except Exception Scan} {after : ParseState} (more : Nat)
    (hbytes : ¬limits.maximumDocumentBytes < input.byteLength)
    (hcalls : after.calls ≤ scanBudget limits)
    (h : Arrives input origin limits (.ok {}) result {} after) :
    ∃ rest, scanDocument origin limits input (scanBudget limits + more) =
      (result >>= scanFrom origin limits input rest after.calls) := by
  obtain ⟨calls, hafter, hscan⟩ := h
  obtain ⟨rest, hrest⟩ : ∃ rest, scanBudget limits + more = calls + rest := by
    rw [hafter] at hcalls
    change 0 + calls ≤ scanBudget limits at hcalls
    exact ⟨scanBudget limits + more - calls, by omega⟩
  refine ⟨rest, ?_⟩
  rw [scanDocument, if_neg hbytes, hrest]
  exact hscan rest

theorem scanDocument_eq_treeOutcome (input : Input) (origin : SourceOrigin) (limits : ParseLimits)
    (more : Nat) :
    scanDocument origin limits input (scanBudget limits + more) =
      treeOutcome origin limits input := by
  have hbounded := @readTree_bounded input origin limits _ (Nat.le_refl _)
  unfold treeOutcome
  by_cases hbytes : limits.maximumDocumentBytes < input.byteLength
  · rw [scanDocument, readTree, if_pos hbytes, if_pos hbytes]
    rfl
  cases hread : readTree input origin limits (parseFuel limits) {} with
  | ok root after =>
      obtain ⟨nodes, harrives⟩ := (readEvents_scans hbytes).ok hread
      obtain ⟨rest, hscan⟩ := scanDocument_of_arrives more hbytes
        (hbounded.ok hread).2 harrives
      rw [hscan, bind_of_ok rfl, scanFrom]
      rfl
  | error exception after =>
      obtain ⟨hattributed, -, hcalls⟩ := hbounded.error hread
      rcases (readEvents_scans hbytes).error hread with hfuel | harrives
      · exact absurd hfuel hattributed.ne_fuel
      · obtain ⟨rest, hscan⟩ := scanDocument_of_arrives more hbytes hcalls harrives
        rw [hscan]
        rfl

/-- `parse_document` is the tree's outcome followed by the pass over its keys. -/
theorem documentOutcome_eq : documentOutcome input origin limits = (do
    let root ← treeOutcome origin limits input
    validateTree origin root (ascii "$")
    pure root) := by
  unfold documentOutcome runDocument parseDocument treeOutcome
  simp only [bind, EStateM.bind]
  cases readTree input origin limits (parseFuel limits) {} with
  | error exception after => rfl
  | ok root after =>
      simp only [Except.bind]
      cases validateTree origin root (ascii "$") with
      | error exception => rfl
      | ok _ => rfl

/-- **The recursive reader is the flat scan.** Whatever the provider yields and whatever the limits,
`parse_document` up to `validate_tree` and one scan over the same events come to the same end: the
same tree, or the same exception with its category, path and mark. The scan's budget is never what
ends it, and what is left of `parse_document` is the pass over the keys. -/
theorem parseDocument_scans (input : Input) (origin : SourceOrigin) (limits : ParseLimits) :
    (∀ more, scanDocument origin limits input (scanBudget limits + more) =
      treeOutcome origin limits input) ∧
    treeOutcome origin limits input ≠ .error .fuel ∧
    documentOutcome input origin limits = (do
      let root ← treeOutcome origin limits input
      validateTree origin root (ascii "$")
      pure root) := by
  refine ⟨scanDocument_eq_treeOutcome input origin limits, fun hfuel => ?_, documentOutcome_eq⟩
  apply @documentOutcome_ne_fuel input origin limits
  rw [documentOutcome_eq, hfuel]
  rfl

end PkgsourceYaml
