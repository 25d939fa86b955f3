import PkgsourceYaml.Proof.Tracking
import PkgsourceYaml.Proof.Document

/-!
# Resource envelope of the recursive reader

The provider may never end and may fail at any call, so nothing in its events bounds the recursion.
What bounds it is the node budget: every level of recursion that goes on has accounted a node, and a
closing event is pulled only for a node that was accounted before it.
-/

namespace PkgsourceYaml

open Throwing

variable {input : Input} {origin : SourceOrigin} {limits : ParseLimits}

def Step.retention : Step → Option Bytes
  | .retain scalar => some scalar
  | _ => none

/-- The exception is a `yaml_error`, or what a call of the provider failed with. -/
def Exception.Attributed (input : Input) (exception : Exception) : Prop :=
  exception.IsYaml ∨
    ∃ index failed, input.provider index = .error failed ∧ exception = failed.exception

theorem attributed_failure (code : YamlErrorCode) (origin : SourceOrigin) (path : Bytes)
    (mark : SourceMark) (message : Bytes) :
    (failure code origin path mark message).Attributed input :=
  Or.inl (isYaml_failure code origin path mark message)

theorem Exception.Attributed.ne_fuel {exception : Exception} (h : exception.Attributed input) :
    exception ≠ .fuel := by
  rcases h with ⟨error, rfl⟩ | ⟨_, failed, -, rfl⟩
  · simp
  · cases failed <;> simp [ProviderFailure.exception]

/-- What a run has used up at most, at the moments its trace covers. -/
structure Contained (limits : ParseLimits) (trace : List Step) : Prop where
  entries : ∀ depth, .enter depth ∈ trace → depth ≤ limits.maximumDepth + 1
  retained : (trace.filterMap Step.retention).length ≤ limits.maximumNodes
  scalars : ∀ scalar ∈ trace.filterMap Step.retention, scalar.length ≤ limits.maximumScalarBytes

/-- The invariant between two steps: every retained node was accounted, within the budget. -/
structure ParseState.Bounded (limits : ParseLimits) (state : ParseState) : Prop where
  entries : ∀ depth, .enter depth ∈ state.trace → depth ≤ limits.maximumDepth + 1
  retained : (state.trace.filterMap Step.retention).length = state.nodes
  scalars : ∀ scalar ∈ state.trace.filterMap Step.retention,
    scalar.length ≤ limits.maximumScalarBytes
  nodes : state.nodes ≤ limits.maximumNodes

theorem bounded_initial (limits : ParseLimits) : ParseState.Bounded limits {} :=
  ⟨fun _ h => absurd h List.not_mem_nil, rfl, fun _ h => absurd h List.not_mem_nil,
    Nat.zero_le _⟩

section

variable {state : ParseState}

theorem ParseState.Bounded.pulled (h : state.Bounded limits)
    (result : Except Exception YamlEvent) : (state.pulled result).Bounded limits := by
  refine ⟨fun depth hdepth => ?_, h.retained, h.scalars, h.nodes⟩
  rw [trace_pulled, List.mem_cons] at hdepth
  exact h.entries depth (hdepth.resolve_left (by simp))

theorem ParseState.Bounded.entered (h : state.Bounded limits) {depth : Nat}
    (hdepth : depth ≤ limits.maximumDepth + 1) : (state.entered depth).Bounded limits := by
  refine ⟨fun other hother => ?_, h.retained, h.scalars, h.nodes⟩
  rw [trace_entered, List.mem_cons] at hother
  rcases hother with hsame | hother
  · obtain rfl : other = depth := by simpa using hsame
    exact hdepth
  · exact h.entries other hother

theorem ParseState.Bounded.admitted (h : state.Bounded limits) {depth : Nat} {scalar : Bytes}
    (hdepth : depth ≤ limits.maximumDepth + 1) (hnodes : state.nodes < limits.maximumNodes)
    (hscalar : scalar.length ≤ limits.maximumScalarBytes) :
    (state.admitted depth scalar).Bounded limits := by
  have hentered := h.entered hdepth
  refine ⟨fun other hother => ?_, ?_, fun other hother => ?_, hnodes⟩
  · rw [trace_admitted, List.mem_cons] at hother
    exact hentered.entries other (hother.resolve_left (by simp))
  · rw [trace_admitted, nodes_admitted, ← h.retained]
    rfl
  · change other ∈ scalar :: state.trace.filterMap Step.retention at hother
    rcases List.mem_cons.mp hother with rfl | hother
    · exact hscalar
    · exact h.scalars other hother

theorem ParseState.Bounded.contained (h : state.Bounded limits) {moment : List Step}
    (hmoment : moment <:+ state.trace) : Contained limits moment := by
  have hretained := hmoment.filterMap Step.retention
  refine ⟨fun depth hdepth => h.entries depth (hmoment.subset hdepth), ?_,
    fun scalar hscalar => h.scalars scalar (hretained.subset hscalar)⟩
  calc (moment.filterMap Step.retention).length
      ≤ (state.trace.filterMap Step.retention).length := hretained.length_le
    _ = state.nodes := h.retained
    _ ≤ limits.maximumNodes := h.nodes

end

/-- The reader went over one node: its calls are paid for by the nodes it accounted. -/
structure SpendsNode (limits : ParseLimits) (state after : ParseState) : Prop where
  bounded : after.Bounded limits
  accounted : state.nodes < after.nodes
  calls : after.calls + 1 + 2 * state.nodes ≤ state.calls + 2 * after.nodes

/-- The reader went over part of a collection, and pulled at most one event that is not paid for. -/
structure SpendsRest (limits : ParseLimits) (state after : ParseState) : Prop where
  bounded : after.Bounded limits
  accounted : state.nodes ≤ after.nodes
  calls : after.calls + 2 * state.nodes ≤ state.calls + 2 * after.nodes + 1

/-- The reader failed within a node. -/
structure SpendsUntilFailure (input : Input) (limits : ParseLimits) (state : ParseState)
    (exception : Exception) (after : ParseState) : Prop where
  attributed : exception.Attributed input
  bounded : after.Bounded limits
  accounted : state.nodes ≤ after.nodes
  calls : after.calls + 2 * state.nodes ≤ state.calls + 2 * after.nodes

theorem nextResult_attributed {index : Nat} {exception : Exception}
    (h : nextResult input origin limits index = .error exception) : exception.Attributed input := by
  unfold nextResult at h
  cases hprovider : input.provider index with
  | error failed =>
      rw [hprovider] at h
      exact Or.inr ⟨index, failed, hprovider, (Except.error.inj h).symm⟩
  | ok event =>
      rw [hprovider] at h
      simp only at h
      by_cases hlong : event.kind = .scalar ∧ limits.maximumScalarBytes < event.value.length
      · rw [if_pos hlong] at h
        obtain rfl := Except.error.inj h
        exact attributed_failure _ _ _ _ _
      · rw [if_neg hlong] at h
        cases h

section

variable {state after : ParseState} {exception : Exception}

theorem SpendsRest.of_pulled (h : state.Bounded limits) (result : Except Exception YamlEvent) :
    SpendsRest limits state (state.pulled result) := by
  refine ⟨h.pulled result, Nat.le_refl _, ?_⟩
  rw [ParseState.nodes_pulled, ParseState.calls_pulled]
  omega

/-- The node that opens a collection pays for the event that ends it. -/
theorem SpendsRest.node {depth : Nat} {scalar : Bytes}
    (h : SpendsRest limits (state.admitted depth scalar) after) :
    SpendsNode limits state after := by
  obtain ⟨hbounded, haccounted, hcalls⟩ := h
  rw [ParseState.nodes_admitted] at haccounted hcalls
  rw [ParseState.calls_admitted] at hcalls
  exact ⟨hbounded, by omega, by omega⟩

theorem SpendsNode.untilFailure (h : SpendsNode limits state after)
    (hattributed : exception.Attributed input) :
    SpendsUntilFailure input limits state exception after := by
  have hcalls := h.calls
  exact ⟨hattributed, h.bounded, Nat.le_of_lt h.accounted, by omega⟩

/-- A child that was pulled and read, and what was read after it. -/
theorem SpendsNode.rest {middle : ParseState} {result : Except Exception YamlEvent}
    (h : SpendsNode limits (state.pulled result) middle) (hrest : SpendsRest limits middle after) :
    SpendsRest limits state after := by
  obtain ⟨-, haccounted, hcalls⟩ := h
  rw [ParseState.nodes_pulled] at haccounted hcalls
  rw [ParseState.calls_pulled] at hcalls
  have hmore := hrest.accounted
  have hmoreCalls := hrest.calls
  exact ⟨hrest.bounded, by omega, by omega⟩

theorem SpendsUntilFailure.rest {result : Except Exception YamlEvent}
    (h : SpendsUntilFailure input limits (state.pulled result) exception after) :
    SpendsRest limits state after := by
  obtain ⟨-, hbounded, haccounted, hcalls⟩ := h
  rw [ParseState.nodes_pulled] at haccounted hcalls
  rw [ParseState.calls_pulled] at hcalls
  exact ⟨hbounded, by omega, by omega⟩

end

theorem length_retainedScalar_le {kind : NodeKind} {first : YamlEvent} (hopens : Opens kind first)
    (hfirst : first.kind = .scalar → first.value.length ≤ limits.maximumScalarBytes) :
    (retainedScalar kind first).length ≤ limits.maximumScalarBytes := by
  unfold retainedScalar
  by_cases hkind : kind = .scalar
  · rw [if_pos hkind]
    apply hfirst
    apply nodeKind?_eq_some_scalar.mp
    rw [← hkind]
    exact hopens.node
  · simp [hkind]

/-- Two levels of recursion for each node still in the budget are enough, and every call is paid for
by an accounted node. -/
theorem parse_bounded :
    (∀ fuel first path depth, ∀ state : ParseState,
      (first.kind = .scalar → first.value.length ≤ limits.maximumScalarBytes) →
      depth ≤ limits.maximumDepth + 1 → state.Bounded limits →
      2 * (limits.maximumNodes - state.nodes) + 1 ≤ fuel →
      Meets (parseNode input origin limits fuel first path depth) state
        (fun _ after => SpendsNode limits state after) (SpendsUntilFailure input limits state)) ∧
    ∀ fuel kind path depth index, ∀ state : ParseState,
      depth ≤ limits.maximumDepth → state.Bounded limits →
      2 * (limits.maximumNodes - state.nodes) + 2 ≤ fuel →
      Meets (parseChildren input origin limits fuel kind path depth index) state
        (fun _ after => SpendsRest limits state after)
        (fun exception after => exception.Attributed input ∧ SpendsRest limits state after) := by
  apply parseNode.mutual_induct
  · intro first path depth state _ _ _ hfuel
    omega
  · intro fuel first path depth ih state hfirst hdepth hstate hfuel
    rw [Nat.succ_eq_add_one, parseNode]
    refine Meets.bind (meets_admitNode (fun kind hopens hwithin hnodes => ?_) fun code message _ =>
      ⟨attributed_failure _ _ _ _ _, hstate.entered hdepth, Nat.le_refl _, Nat.le_refl _⟩)
    have hadmitted : (state.admitted depth (retainedScalar kind first)).Bounded limits :=
      hstate.admitted hdepth hnodes (length_retainedScalar_le hopens hfirst)
    refine Meets.ite (fun _ => ?_) fun _ => ?_
    · refine Meets.pure ⟨hadmitted, ?_, ?_⟩
      · rw [ParseState.nodes_admitted]
        omega
      · rw [ParseState.nodes_admitted, ParseState.calls_admitted]
        omega
    · have hchildren := ih kind (state.admitted depth (retainedScalar kind first)) hwithin hadmitted
        (by rw [ParseState.nodes_admitted]; omega)
      refine Meets.bind (Meets.mono hchildren (fun children after _ hafter => ?_)
        fun exception after _ hafter => hafter.2.node.untilFailure hafter.1)
      refine Meets.ite (fun _ => Meets.throw ?_) fun _ => Meets.pure hafter.node
      exact hafter.node.untilFailure (attributed_failure _ _ _ _ _)
  · intro kind path depth index state _ _ hfuel
    omega
  · intro fuel kind path depth index ihNode ihRest state hdepth hstate hfuel
    rw [Nat.succ_eq_add_one, parseChildren]
    refine Meets.bind (meets_next (fun event hevent => ?_) fun exception hexception =>
      ⟨nextResult_attributed hexception, .of_pulled hstate _⟩)
    have hspent := SpendsRest.of_pulled hstate (.ok event)
    refine Meets.ite (fun _ => Meets.pure hspent) fun _ => ?_
    apply Meets.ite (fun _ => Meets.throw ⟨attributed_failure _ _ _ _ _, hspent⟩)
    intro _
    have hchild := ihNode event (state.pulled (.ok event)) (nextResult_eq_ok_iff.mp hevent).2
      (by omega) hspent.bounded (by rw [ParseState.nodes_pulled]; omega)
    refine Meets.bind (Meets.mono hchild (fun child middle _ hmiddle => ?_)
      fun exception after _ hafter => ⟨hafter.attributed, hafter.rest⟩)
    have hbudget : 2 * (limits.maximumNodes - middle.nodes) + 2 ≤ fuel := by
      have haccounted := hmiddle.accounted
      have hnodes := hmiddle.bounded.nodes
      rw [ParseState.nodes_pulled] at haccounted
      omega
    exact Meets.bind (Meets.mono (ihRest middle hdepth hmiddle.bounded hbudget)
      (fun rest after _ hafter => Meets.pure (hmiddle.rest hafter))
      fun exception after _ hafter => ⟨hafter.1, hmiddle.rest hafter.2⟩)

theorem readEnd_bounded {state : ParseState} (hstate : state.Bounded limits) :
    Meets (readTree.readEnd input origin limits) state
      (fun _ after => after.Bounded limits ∧ after.calls ≤ state.calls + 2)
      (fun exception after => exception.Attributed input ∧ after.Bounded limits ∧
        after.calls ≤ state.calls + 2) := by
  unfold readTree.readEnd
  refine Meets.bind (meets_next (fun event _ => ?_) fun exception hexception =>
    ⟨nextResult_attributed hexception, hstate.pulled _, by simp⟩)
  apply Meets.ite (fun _ => Meets.throw ⟨attributed_failure _ _ _ _ _, hstate.pulled _, by simp⟩)
  intro _
  have hpulled := (hstate.pulled (.ok event))
  refine Meets.bind (meets_next (fun last _ => ?_) fun exception hexception =>
    ⟨nextResult_attributed hexception, hpulled.pulled _, by simp⟩)
  have hlast := hpulled.pulled (.ok last)
  apply Meets.ite (fun _ => Meets.throw ⟨attributed_failure _ _ _ _ _, hlast, by simp⟩)
  intro _
  exact Meets.ite (fun _ => Meets.throw ⟨attributed_failure _ _ _ _ _, hlast, by simp⟩)
    fun _ => Meets.pure ⟨hlast, by simp⟩

/-- The whole reader: five calls around the root's nodes at most, one of which opens the root. -/
theorem readTree_bounded {fuel : Nat} (hfuel : parseFuel limits ≤ fuel) :
    Meets (readTree input origin limits fuel) {}
      (fun _ after => after.Bounded limits ∧ after.calls ≤ 2 * limits.maximumNodes + 4)
      (fun exception after => exception.Attributed input ∧ after.Bounded limits ∧
        after.calls ≤ 2 * limits.maximumNodes + 4) := by
  have hstart := bounded_initial limits
  unfold readTree
  apply Meets.ite (fun _ => Meets.throw ⟨attributed_failure _ _ _ _ _, hstart, by simp⟩)
  intro _
  refine Meets.bind (meets_next (fun first _ => ?_) fun exception hexception =>
    ⟨nextResult_attributed hexception, hstart.pulled _, by simp⟩)
  have hfirst := hstart.pulled (.ok first)
  apply Meets.ite (fun _ => Meets.throw ⟨attributed_failure _ _ _ _ _, hfirst, by simp⟩)
  intro _
  refine Meets.bind (meets_next (fun second _ => ?_) fun exception hexception =>
    ⟨nextResult_attributed hexception, hfirst.pulled _, by simp⟩)
  have hsecond := hfirst.pulled (.ok second)
  apply Meets.ite (fun _ => Meets.throw ⟨attributed_failure _ _ _ _ _, hsecond, by simp⟩)
  intro _
  apply Meets.ite (fun _ => Meets.throw ⟨attributed_failure _ _ _ _ _, hsecond, by simp⟩)
  intro _
  refine Meets.bind (meets_next (fun third hthird => ?_) fun exception hexception =>
    ⟨nextResult_attributed hexception, hsecond.pulled _, by simp⟩)
  have hopened := hsecond.pulled (.ok third)
  apply Meets.ite (fun _ => Meets.throw ⟨attributed_failure _ _ _ _ _, hopened, by simp⟩)
  intro _
  have hbudget : 2 * (limits.maximumNodes - 0) + 1 ≤ fuel := hfuel
  refine Meets.bind (Meets.mono
    (parse_bounded.1 fuel third _ 1 _ (nextResult_eq_ok_iff.mp hthird).2 (by omega) hopened hbudget)
    (fun root after _ hafter => ?_) fun exception after _ hafter => ?_)
  · have hcalls := hafter.calls
    have hnodes := hafter.bounded.nodes
    simp only [ParseState.calls_pulled, ParseState.nodes_pulled] at hcalls
    refine Meets.bind (Meets.mono (readEnd_bounded hafter.bounded)
      (fun _ last _ hlast => Meets.pure ⟨hlast.1, ?_⟩)
      fun exception last _ hlast => ⟨hlast.1, hlast.2.1, ?_⟩)
    · have hend := hlast.2
      omega
    · have hend := hlast.2.2
      omega
  · have hcalls := hafter.calls
    have hnodes := hafter.bounded.nodes
    simp only [ParseState.calls_pulled, ParseState.nodes_pulled] at hcalls
    exact ⟨hafter.attributed, hafter.bounded, by omega⟩

/-- On a well-shaped tree, key validation throws nothing but `yaml_error`s. -/
theorem validate_throws :
    (∀ (node : Node) (path : Bytes), (∀ inner ∈ node.nodes, inner.Shaped) →
      Throws (validateTree origin node path) Exception.IsYaml) ∧
    (∀ (children : List Node) (path : Bytes) (keys : List Bytes), children.length % 2 = 0 →
      (∀ child ∈ children, ∀ inner ∈ child.nodes, inner.Shaped) →
      Throws (validatePairs origin children path keys) Exception.IsYaml) ∧
    ∀ (items : List Node) (path : Bytes) (index : Nat),
      (∀ item ∈ items, ∀ inner ∈ item.nodes, inner.Shaped) →
      Throws (validateItems origin items path index) Exception.IsYaml := by
  apply validateTree.mutual_induct
  · intro mark scalar children path _
    exact Throws.pure
  · intro mark scalar children path ih hshaped
    exact ih ((Node.forall_nodes_iff _).mp hshaped).2
  · intro mark scalar children path ih hshaped
    obtain ⟨hself, hchildren⟩ := (Node.forall_nodes_iff _).mp hshaped
    exact ih (hself.paired rfl) hchildren
  · intro path keys _ _
    exact Throws.pure
  · intro last path keys heven _
    simp at heven
  · intro key child rest path keys hkind _ _
    rw [validatePairs, if_pos hkind]
    exact Throws.throw (isYaml_failure _ _ _ _ _)
  · intro key child rest path keys hkind hmerge _ _
    rw [validatePairs, if_neg hkind, if_pos hmerge]
    exact Throws.throw (isYaml_failure _ _ _ _ _)
  · intro key child rest path keys hkind hmerge hseen _ _
    rw [validatePairs, if_neg hkind, if_neg hmerge, if_pos hseen]
    exact Throws.throw (isYaml_failure _ _ _ _ _)
  · intro key child rest path keys hkind hmerge hseen ihChild ihRest heven hshaped
    have hrest : rest.length % 2 = 0 := by
      simp only [List.length_cons] at heven
      omega
    rw [validatePairs, if_neg hkind, if_neg hmerge, if_neg hseen]
    exact Throws.bind (ihChild (hshaped child (by simp))) fun _ _ => ihRest hrest fun other h =>
      hshaped other (List.mem_cons_of_mem _ (List.mem_cons_of_mem _ h))
  · intro path index _
    exact Throws.pure
  · intro item rest path index ihItem ihRest hshaped
    rw [validateItems]
    exact Throws.bind (ihItem (hshaped item List.mem_cons_self)) fun _ _ =>
      ihRest fun other h => hshaped other (List.mem_cons_of_mem item h)

/-- Over the byte ceiling, the run ends before its first call. -/
theorem runDocument_of_exceeded (hbytes : limits.maximumDocumentBytes < input.byteLength) :
    runDocument input origin limits =
      .error (failure .resourceLimit origin (ascii "$") ⟨1, 1⟩
        (ascii "YAML document exceeds configured byte limit")) {} := by
  unfold runDocument parseDocument readTree
  rw [if_pos hbytes]
  rfl

theorem runDocument_bounded :
    Meets (parseDocument input origin limits) {}
      (fun _ after => after.Bounded limits ∧ after.calls ≤ 2 * limits.maximumNodes + 4)
      (fun exception after => exception.Attributed input ∧ after.Bounded limits ∧
        after.calls ≤ 2 * limits.maximumNodes + 4) := by
  unfold parseDocument
  refine Meets.bind (Meets.mono (readTree_bounded (Nat.le_refl _))
    (fun root after hread hafter => ?_) fun _ _ _ h => h)
  obtain ⟨-, document, rfl, hspelled, -⟩ := readTree_sound.ok hread
  have hshaped := shaped_of_spelled hspelled
  apply Meets.bind
  cases hvalid : validateTree origin document.root.toNode (ascii "$") with
  | ok _ => exact Meets.pure (Meets.pure hafter)
  | error exception =>
      exact Meets.throw ⟨Or.inl (validate_throws.1 _ _ hshaped exception hvalid), hafter⟩

/-- Whatever `parse_document` throws is a `yaml_error` or the provider's own failure. -/
theorem documentOutcome_throws :
    Throws (documentOutcome input origin limits) (Exception.Attributed input) := by
  intro exception herror
  have hrun := @runDocument_bounded input origin limits
  unfold documentOutcome runDocument at herror
  cases hresult : parseDocument input origin limits {} with
  | ok root after => simp [hresult] at herror
  | error found after =>
      rw [hresult] at herror
      obtain rfl := Except.error.inj herror
      exact (hrun.error hresult).1

theorem documentOutcome_ne_fuel : documentOutcome input origin limits ≠ .error .fuel :=
  fun herror => (documentOutcome_throws _ herror).ne_fuel rfl

/-- More recursion than the model grants changes nothing. -/
theorem readTree_fuel {fuel : Nat} (hfuel : parseFuel limits ≤ fuel) :
    readTree input origin limits fuel {} = readTree input origin limits (parseFuel limits) {} := by
  have hbelow : limits.Below limits :=
    ⟨Nat.le_refl _, Nat.le_refl _, Nat.le_refl _, Nat.le_refl _⟩
  have hfollows : Follows limits limits (readTree input origin limits (parseFuel limits))
      (readTree input origin limits fuel) {} := follows_readTree hbelow hfuel {}
  have hattributed : ∀ exception after,
      readTree input origin limits (parseFuel limits) {} = .error exception after →
      ¬GivesUp limits limits exception := by
    intro exception after herror hgives
    rcases hgives with hfuel | ⟨hne, -⟩
    · exact ((readTree_bounded (Nat.le_refl _)).error herror).1.ne_fuel hfuel
    · exact hne rfl
  cases hlarger : readTree input origin limits fuel {} with
  | ok root after =>
      rcases hfollows.of_ok hlarger with ⟨root', after', h, rfl, rfl⟩ | ⟨e, after', h, hgives⟩
      · exact h.symm
      · exact absurd hgives (hattributed e after' h)
  | error exception after =>
      obtain ⟨e, after', h, hgives | ⟨rfl, rfl⟩⟩ := hfollows.of_error hlarger
      · exact absurd hgives (hattributed e after' h)
      · exact h.symm

/-- **Resource envelope.** Whatever the provider does, `parse_document` comes to an end: a recursion
bound beyond `parseFuel` changes nothing and is never met. It makes at most `2 * N + 4` calls of
`next()`, and at every moment of the run it has entered `parse_node` at depth `D + 1` at most and
has retained at most `N` nodes of at most `S` scalar bytes each. -/
theorem parseDocument_envelope (input : Input) (origin : SourceOrigin) (limits : ParseLimits) :
    (∀ fuel, parseFuel limits ≤ fuel → readTree input origin limits fuel {} =
      readTree input origin limits (parseFuel limits) {}) ∧
    documentOutcome input origin limits ≠ .error .fuel ∧
    (finalState input origin limits).calls ≤ 2 * limits.maximumNodes + 4 ∧
    ∀ moment, moment <:+ (finalState input origin limits).trace → Contained limits moment := by
  have hrun := @runDocument_bounded input origin limits
  have hfinal : (finalState input origin limits).Bounded limits ∧
      (finalState input origin limits).calls ≤ 2 * limits.maximumNodes + 4 := by
    unfold finalState runDocument
    cases hresult : parseDocument input origin limits {} with
    | ok root after => exact hrun.ok hresult
    | error exception after => exact (hrun.error hresult).2
  exact ⟨fun fuel hfuel => readTree_fuel hfuel, documentOutcome_ne_fuel, hfinal.2,
    fun moment hmoment => hfinal.1.contained hmoment⟩

end PkgsourceYaml
