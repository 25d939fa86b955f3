import PkgsourceYaml.Counters
import PkgsourceYaml.Library.Unsequenced
import PkgsourceYaml.Proof.Envelope

/-!
# Ceilings survive wrapping counters

A node at depth `d` has `d - 1` open collections around it and a child at index `i` has `i` siblings
before it, all accounted already. So the node counter, which the ceiling keeps below the width,
bounds both; where the depth overflows, no node is left in the budget.
-/

namespace PkgsourceYaml

open Throwing

variable {counters : Counters} {input : Input} {origin : SourceOrigin} {limits : ParseLimits}
  {size : Nat}

/-- The run over machine counters keeps step with the run over numbers: they return the same in the
same state, or they report the same. -/
abbrev KeepsStep {α : Type} (origin : SourceOrigin) (x : ParseM α) (s : ParseState) (y : ParseM α)
    (t : ParseState) (Q : α → ParseState → Prop) : Prop :=
  Tracks (fun _ => False) (fun e _ e' _ => Reworded origin e e') x s y t
    fun a after b after' => a = b ∧ after = after' ∧ Q a after

section

variable {α β : Type}

theorem KeepsStep.bind {x y : ParseM α} {f g : α → ParseM β} {s t : ParseState}
    {P : α → ParseState → Prop} {Q : β → ParseState → Prop} (h : KeepsStep origin x s y t P)
    (hnext : ∀ a after, P a after → KeepsStep origin (f a) after (g a) after Q) :
    KeepsStep origin (x >>= f) s (y >>= g) t Q := by
  refine Tracks.bind (Tracks.mono h ?_)
  rintro a after _ _ ⟨rfl, rfl, hP⟩
  exact hnext a after hP

theorem KeepsStep.pure {a : α} {s : ParseState} {Q : α → ParseState → Prop} (h : Q a s) :
    KeepsStep origin (pure a : ParseM α) s (Pure.pure a) s Q :=
  Tracks.pure ⟨rfl, rfl, h⟩

theorem KeepsStep.fail {code : YamlErrorCode} {path : Bytes} {mark : SourceMark}
    {message message' : String} {s t : ParseState} {Q : α → ParseState → Prop} :
    KeepsStep origin (fail origin code path mark message : ParseM α) s
      (PkgsourceYaml.fail origin code path mark message') t Q :=
  Tracks.throw (.words code path mark (ascii message) (ascii message'))

end

theorem keepsStep_next (state : ParseState) :
    KeepsStep origin (next input origin limits) state (next input origin limits) state
      fun _ after => after.nodes = state.nodes := by
  unfold KeepsStep Tracks next
  cases nextResult input origin limits state.calls with
  | ok event => exact ⟨rfl, rfl, rfl⟩
  | error exception => exact Or.inr (.same exception)

/-- The depth a run over machine counters has where the true depth is `depth`. -/
def DepthBelow (size depth machineDepth : Nat) : Prop :=
  depth < size → machineDepth = depth

/-- Accounting a node: below the ceilings nothing overflows. A depth that overflowed belongs to a
node that finds the budget used up. -/
theorem keepsStep_accountNode (hcounters : counters.ExactBelow size)
    (hdepth : limits.maximumDepth < size) (hnodes : limits.maximumNodes < size)
    {path : Bytes} {mark : SourceMark} {depth machineDepth : Nat} {state : ParseState}
    (hmachine : DepthBelow size depth machineDepth) (hopen : depth ≤ state.nodes + 1) :
    KeepsStep origin (accountNodeOver counters origin limits path mark machineDepth)
      (state.entered machineDepth) (accountNode origin limits path mark depth)
      (state.entered depth) fun _ after => depth ≤ limits.maximumDepth ∧
        after.nodes = state.nodes + 1 ∧ after.nodes ≤ limits.maximumNodes := by
  unfold accountNodeOver accountNode
  by_cases hdeep : limits.maximumDepth < depth
  · rw [if_pos hdeep]
    by_cases hmachineDeep : limits.maximumDepth < machineDepth
    · rw [if_pos hmachineDeep]
      exact KeepsStep.fail
    · have hoverflow : size ≤ depth := by
        by_contra hsmall
        have hexact := hmachine (by omega)
        omega
      have hfull : limits.maximumNodes ≤ state.nodes := by omega
      rw [if_neg hmachineDeep]
      change KeepsStep origin (if limits.maximumNodes ≤ state.nodes then _ else _) _ _ _ _
      rw [if_pos hfull]
      exact KeepsStep.fail
  · obtain rfl : machineDepth = depth := hmachine (by omega)
    rw [if_neg hdeep, if_neg hdeep]
    change KeepsStep origin (if limits.maximumNodes ≤ state.nodes then _ else _) _
      (if limits.maximumNodes ≤ state.nodes then _ else _) _ _
    by_cases hfull : limits.maximumNodes ≤ state.nodes
    · rw [if_pos hfull, if_pos hfull]
      exact KeepsStep.fail
    · have hexact : counters.nextNodes state.nodes = state.nodes + 1 :=
        hcounters.nodes state.nodes (by omega)
      rw [if_neg hfull, if_neg hfull]
      refine Tracks.modify ⟨rfl, ?_, by omega, ?_, ?_⟩
      · simp only [ParseState.accounted, ParseState.nodes_entered, hexact]
      · exact hexact
      · simp only [ParseState.nodes_entered, hexact]
        omega

theorem keepsStep_admitNode (hcounters : counters.ExactBelow size)
    (hdepth : limits.maximumDepth < size) (hnodes : limits.maximumNodes < size)
    {first : YamlEvent} {path : Bytes} {depth machineDepth : Nat} {state : ParseState}
    (hmachine : DepthBelow size depth machineDepth) (hopen : depth ≤ state.nodes + 1) :
    KeepsStep origin (admitNodeOver counters origin limits first path machineDepth) state
      (admitNode origin limits first path depth) state
      fun _ after => depth ≤ limits.maximumDepth ∧ after.nodes = state.nodes + 1 ∧
        after.nodes ≤ limits.maximumNodes := by
  unfold admitNodeOver admitNode
  refine Tracks.bind (Tracks.modify ?_)
  apply Tracks.ite Iff.rfl (fun _ => KeepsStep.fail)
  intro _
  cases first.kind.nodeKind? with
  | none => exact KeepsStep.fail
  | some kind =>
      apply Tracks.ite Iff.rfl (fun _ => KeepsStep.fail)
      intro _
      apply Tracks.ite Iff.rfl (fun _ => KeepsStep.fail)
      intro _
      apply KeepsStep.bind (keepsStep_accountNode hcounters hdepth hnodes hmachine hopen)
      intro _ accounted haccounted
      exact Tracks.bind (Tracks.modify (KeepsStep.pure haccounted))

theorem parse_keepsStep (hcounters : counters.ExactBelow size)
    (hdepth : limits.maximumDepth < size) (hnodes : limits.maximumNodes < size) :
    (∀ fuel first path depth, ∀ machineDepth state, DepthBelow size depth machineDepth →
      depth ≤ state.nodes + 1 →
      KeepsStep origin (parseNodeOver counters input origin limits fuel first path machineDepth)
        state (parseNode input origin limits fuel first path depth) state
        fun _ after => state.nodes < after.nodes ∧ after.nodes ≤ limits.maximumNodes) ∧
    ∀ fuel kind path depth index, ∀ state, depth ≤ limits.maximumDepth → depth ≤ state.nodes →
      index ≤ state.nodes → state.nodes ≤ limits.maximumNodes →
      KeepsStep origin (parseChildrenOver counters input origin limits fuel kind path depth index)
        state (parseChildren input origin limits fuel kind path depth index) state
        fun _ after => state.nodes ≤ after.nodes ∧ after.nodes ≤ limits.maximumNodes := by
  apply parseNode.mutual_induct
  · intro first path depth machineDepth state _ _
    exact Tracks.throw (.same _)
  · intro fuel first path depth ih machineDepth state hmachine hopen
    rw [Nat.succ_eq_add_one, parseNodeOver, parseNode]
    apply KeepsStep.bind (keepsStep_admitNode hcounters hdepth hnodes hmachine hopen)
    rintro kind admitted ⟨hwithin, haccounted, hbound⟩
    -- an admitted node is at a depth that did not overflow
    obtain rfl : machineDepth = depth := hmachine (by omega)
    refine Tracks.ite Iff.rfl (fun _ => KeepsStep.pure ⟨by omega, hbound⟩) fun _ => ?_
    apply KeepsStep.bind (ih kind admitted hwithin (by omega) (Nat.zero_le _) hbound)
    rintro children after ⟨hgrown, hafter⟩
    exact Tracks.ite Iff.rfl (fun _ => KeepsStep.fail) fun _ => KeepsStep.pure ⟨by omega, hafter⟩
  · intro kind path depth index state _ _ _ _
    exact Tracks.throw (.same _)
  · intro fuel kind path depth index ihNode ihRest state hwithin hopen hindex hbound
    rw [Nat.succ_eq_add_one, parseChildrenOver, parseChildren]
    apply KeepsStep.bind (keepsStep_next state)
    intro event pulled hpulled
    refine Tracks.ite Iff.rfl (fun _ => KeepsStep.pure ⟨by omega, by omega⟩) fun _ => ?_
    apply Tracks.ite Iff.rfl (fun _ => KeepsStep.fail)
    intro _
    apply KeepsStep.bind (ihNode event (counters.nextDepth depth) pulled (hcounters.depth depth)
      (by omega))
    rintro child middle ⟨hgrown, hmiddle⟩
    have hnext : counters.nextIndex index = index + 1 := hcounters.index index (by omega)
    rw [hnext]
    apply KeepsStep.bind (ihRest middle hwithin (by omega) (by omega) hmiddle)
    rintro rest after ⟨hmore, hafter⟩
    exact KeepsStep.pure ⟨by omega, hafter⟩

theorem rootOutcomeOver_endsAlike (hcounters : counters.ExactBelow size)
    (hdepth : limits.maximumDepth < size) (hnodes : limits.maximumNodes < size) {fuel index : Nat}
    {first : YamlEvent} :
    Unsequenced.EndsAlike (Reworded origin)
      (rootOutcomeOver counters input origin limits fuel index first)
      (rootOutcome input origin limits fuel index first) := by
  have hsteps : KeepsStep origin _ _ _ _ _ :=
    (@parse_keepsStep counters input _ _ _ hcounters hdepth hnodes).1 fuel first (ascii "$") 1 1
      { calls := index } (fun _ => rfl) (Nat.le_refl 1)
  unfold rootOutcomeOver rootOutcome
  cases hnumbers : parseNode input origin limits fuel first (ascii "$") 1 { calls := index } with
  | ok root after =>
      rcases hsteps.of_ok hnumbers with ⟨root', after', hmachine, rfl, -⟩ | ⟨_, _, -, hfalse⟩
      · rw [hmachine]
        exact Or.inl ⟨root', rfl, rfl⟩
      · exact hfalse.elim
  | error exception after =>
      obtain ⟨exception', after', hmachine, hfalse | hreport⟩ := hsteps.of_error hnumbers
      · exact hfalse.elim
      · rw [hmachine]
        exact Or.inr ⟨exception', exception, rfl, rfl, hreport⟩

/-- Read with enough fuel, the root of a document is never cut short by the recursion bound. -/
theorem meets_root_ne_fuel {fuel index : Nat} {first : YamlEvent}
    (hfuel : parseFuel limits ≤ fuel) :
    Meets (parseNode input origin limits fuel first (ascii "$") 1) { calls := index }
      (fun _ _ => True) fun exception _ => exception ≠ .fuel := by
  by_cases hscalar : first.kind = .scalar
  · -- a scalar root opens no collection, and one step is enough for it
    obtain ⟨fuel, rfl⟩ : ∃ rest, fuel = rest + 1 := ⟨fuel - 1, by rw [parseFuel] at hfuel; omega⟩
    rw [parseNode]
    refine Meets.bind (meets_admitNode (fun kind hopens _ _ => ?_) fun _ _ _ => by
      simp [failure])
    obtain rfl : kind = .scalar := by
      simpa [hscalar, YamlEventKind.nodeKind?] using hopens.node.symm
    exact Meets.pure trivial
  · have hstart : ParseState.Bounded limits { calls := index } :=
      ⟨fun _ h => absurd h List.not_mem_nil, rfl, fun _ h => absurd h List.not_mem_nil,
        Nat.zero_le _⟩
    have hbounded := (@parse_bounded input origin limits).1 fuel first (ascii "$") 1
      { calls := index } (fun h => absurd h hscalar) (by omega) hstart
      (by simpa [parseFuel] using hfuel)
    exact Meets.mono hbounded (fun _ _ _ _ => trivial)
      fun exception after _ hspent => hspent.attributed.ne_fuel

theorem rootOutcome_ne_fuel {fuel index : Nat} {first : YamlEvent}
    (hfuel : parseFuel limits ≤ fuel) :
    rootOutcome input origin limits fuel index first ≠ .error .fuel := by
  intro herror
  unfold rootOutcome at herror
  cases hresult : parseNode input origin limits fuel first (ascii "$") 1 { calls := index } with
  | ok root after =>
      rw [hresult] at herror
      cases herror
  | error exception after =>
      rw [hresult] at herror
      exact (meets_root_ne_fuel hfuel).error hresult (Except.error.inj herror)

/-- **Ceilings survive wrapping.** Under ceilings that a `size_t` of `width` bits can hold,
`parse_node` with the node counter, the depth and the child index computed modulo `2 ^ width` comes
to the same tree as with numbers, or to the same category, path and mark. The same holds whatever an
increment yields once it is no longer exact, so none but the depth of a rejected node ever is. The
recursion bound plays no part. -/
theorem wrapping_defeats_no_ceiling (width : Nat) (input : Input) (origin : SourceOrigin)
    (limits : ParseLimits) (hdepth : limits.maximumDepth ≤ 2 ^ width - 1)
    (hnodes : limits.maximumNodes ≤ 2 ^ width - 1) (fuel index : Nat) (first : YamlEvent) :
    Unsequenced.EndsAlike (Reworded origin)
        (rootOutcomeOver (.modulo width) input origin limits fuel index first)
        (rootOutcome input origin limits fuel index first) ∧
      (∀ counters : Counters, counters.ExactBelow (2 ^ width) →
        Unsequenced.EndsAlike (Reworded origin)
          (rootOutcomeOver counters input origin limits fuel index first)
          (rootOutcome input origin limits fuel index first)) ∧
      (parseFuel limits ≤ fuel →
        rootOutcome input origin limits fuel index first ≠ .error .fuel) := by
  have hpositive : 0 < 2 ^ width := Nat.two_pow_pos width
  exact ⟨rootOutcomeOver_endsAlike (Counters.exactBelow_modulo width) (by omega) (by omega),
    fun counters hcounters => rootOutcomeOver_endsAlike hcounters (by omega) (by omega),
    rootOutcome_ne_fuel⟩

/-- A sequence in a sequence under the largest ceilings a one-bit `size_t` can hold: the inner depth
wraps to zero, and the node budget rejects what the depth ceiling rejects over numbers. -/
theorem wrapping_defeats_no_ceiling_bit :
    rootOutcomeOver (.modulo 1) (.spelling 4 (.items [.items []])) ⟨ascii "recipe.yaml"⟩
        ⟨4, 4, 1, 1⟩ 3 3 { kind := .sequenceStart } =
      .error (failure .resourceLimit ⟨ascii "recipe.yaml"⟩ (ascii "$[0]") ⟨1, 1⟩
        (ascii "YAML node count exceeds configured limit")) ∧
    rootOutcome (.spelling 4 (.items [.items []])) ⟨ascii "recipe.yaml"⟩ ⟨4, 4, 1, 1⟩ 3 3
        { kind := .sequenceStart } =
      .error (failure .resourceLimit ⟨ascii "recipe.yaml"⟩ (ascii "$[0]") ⟨1, 1⟩
        (ascii "YAML nesting exceeds configured depth limit")) ∧
    Unsequenced.EndsAlike (Reworded ⟨ascii "recipe.yaml"⟩)
      (rootOutcomeOver (.modulo 1) (.spelling 4 (.items [.items []])) ⟨ascii "recipe.yaml"⟩
        ⟨4, 4, 1, 1⟩ 3 3 { kind := .sequenceStart })
      (rootOutcome (.spelling 4 (.items [.items []])) ⟨ascii "recipe.yaml"⟩ ⟨4, 4, 1, 1⟩ 3 3
        { kind := .sequenceStart }) :=
  ⟨rfl, rfl, (wrapping_defeats_no_ceiling 1 (.spelling 4 (.items [.items []]))
    ⟨ascii "recipe.yaml"⟩ ⟨4, 4, 1, 1⟩ (by decide) (by decide) 3 3
    { kind := .sequenceStart }).1⟩

end PkgsourceYaml
