import PkgsourceYaml.Proof.Scan
import PkgsourceYaml.Proof.Stream

/-!
# What a provider throws comes out unchanged

No call follows a call that threw, and no layer above catches, wraps or replaces what it threw. So a
run in which some call threw ends with that exception, from either entry point.
-/

namespace PkgsourceYaml

open Throwing

variable {input : Input} {origin : SourceOrigin} {limits : ParseLimits}

/-- No call so far threw. -/
def Unthrown (input : Input) (origin : SourceOrigin) (limits : ParseLimits)
    (state : ParseState) : Prop :=
  ∀ index < state.calls, ∃ event, nextResult input origin limits index = .ok event

/-- If some call so far threw, it threw this. -/
def Surfaced (input : Input) (origin : SourceOrigin) (limits : ParseLimits)
    (exception : Exception) (state : ParseState) : Prop :=
  ∀ index < state.calls, ∀ thrown, nextResult input origin limits index = .error thrown →
    exception = thrown

theorem Unthrown.surfaced {state : ParseState} (h : Unthrown input origin limits state)
    (exception : Exception) : Surfaced input origin limits exception state := by
  intro index hindex thrown hthrown
  have hevent := h index hindex
  rw [hthrown] at hevent
  obtain ⟨event, hcontra⟩ := hevent
  cases hcontra

/-- One call: a return leaves no throw behind, a throw is the run's own. -/
theorem meets_next_surfaced {state : ParseState} {Q : YamlEvent → ParseState → Prop}
    (hstate : Unthrown input origin limits state)
    (hok : ∀ event after, Unthrown input origin limits after → Q event after) :
    Meets (next input origin limits) state Q (Surfaced input origin limits) := by
  refine meets_next (fun event hevent => hok event _ fun index hindex => ?_)
    fun exception herror index hindex thrown hthrown => ?_
  · rw [ParseState.calls_pulled] at hindex
    by_cases hlatest : index = state.calls
    · rw [hlatest]
      exact ⟨event, hevent⟩
    · exact hstate index (by omega)
  · rw [ParseState.calls_pulled] at hindex
    by_cases hlatest : index = state.calls
    · rw [hlatest, herror] at hthrown
      exact Except.error.inj hthrown
    · exact hstate.surfaced exception index (by omega) thrown hthrown

theorem parse_surfaces :
    (∀ fuel first path depth, ∀ state : ParseState, Unthrown input origin limits state →
      Meets (parseNode input origin limits fuel first path depth) state
        (fun _ after => Unthrown input origin limits after) (Surfaced input origin limits)) ∧
    ∀ fuel kind path depth index, ∀ state : ParseState, Unthrown input origin limits state →
      Meets (parseChildren input origin limits fuel kind path depth index) state
        (fun _ after => Unthrown input origin limits after) (Surfaced input origin limits) := by
  apply parseNode.mutual_induct
  · intro first path depth state hstate
    exact Meets.throw (hstate.surfaced _)
  · intro fuel first path depth ih state hstate
    rw [Nat.succ_eq_add_one, parseNode]
    refine Meets.bind (meets_admitNode (fun kind _ _ _ => ?_) fun code message _ =>
      hstate.surfaced _)
    refine Meets.ite (fun _ => Meets.pure hstate) fun _ => ?_
    refine Meets.bind (Meets.mono (ih kind _ hstate) (fun children after _ hafter => ?_)
      fun _ _ _ h => h)
    exact Meets.ite (fun _ => Meets.throw (hafter.surfaced _)) fun _ => Meets.pure hafter
  · intro kind path depth index state hstate
    exact Meets.throw (hstate.surfaced _)
  · intro fuel kind path depth index ihNode ihRest state hstate
    rw [Nat.succ_eq_add_one, parseChildren]
    refine Meets.bind (meets_next_surfaced hstate fun event after hafter => ?_)
    refine Meets.ite (fun _ => Meets.pure hafter) fun _ => ?_
    refine Meets.ite (fun _ => Meets.throw (hafter.surfaced _)) fun _ => ?_
    refine Meets.bind (Meets.mono (ihNode event after hafter) (fun child middle _ hmiddle => ?_)
      fun _ _ _ h => h)
    exact Meets.bind (Meets.mono (ihRest middle hmiddle) (fun _ _ _ hlast => Meets.pure hlast)
      fun _ _ _ h => h)

theorem readTree_surfaces {fuel : Nat} :
    Meets (readTree input origin limits fuel) {}
      (fun _ after => Unthrown input origin limits after) (Surfaced input origin limits) := by
  have hstart : Unthrown input origin limits {} := fun index h => absurd h (Nat.not_lt_zero index)
  unfold readTree
  apply Meets.ite (fun _ => Meets.throw (hstart.surfaced _))
  intro _
  refine Meets.bind (meets_next_surfaced hstart fun first afterFirst hfirst => ?_)
  apply Meets.ite (fun _ => Meets.throw (hfirst.surfaced _))
  intro _
  refine Meets.bind (meets_next_surfaced hfirst fun second afterSecond hsecond => ?_)
  apply Meets.ite (fun _ => Meets.throw (hsecond.surfaced _))
  intro _
  apply Meets.ite (fun _ => Meets.throw (hsecond.surfaced _))
  intro _
  refine Meets.bind (meets_next_surfaced hsecond fun third opened hopened => ?_)
  apply Meets.ite (fun _ => Meets.throw (hopened.surfaced _))
  intro _
  refine Meets.bind (Meets.mono (parse_surfaces.1 fuel third _ 1 opened hopened)
    (fun root after _ hafter => ?_) fun _ _ _ h => h)
  apply Meets.bind
  unfold readTree.readEnd
  refine Meets.bind (meets_next_surfaced hafter fun fourth closed hclosed => ?_)
  apply Meets.ite (fun _ => Meets.throw (hclosed.surfaced _))
  intro _
  refine Meets.bind (meets_next_surfaced hclosed fun last ended hended => ?_)
  apply Meets.ite (fun _ => Meets.throw (hended.surfaced _))
  intro _
  apply Meets.ite (fun _ => Meets.throw (hended.surfaced _))
  intro _
  exact Meets.pure (Meets.pure hended)

/-- A call that threw ends the reading of the tree, before the pass over the keys. -/
theorem treeOutcome_of_thrown {index : Nat} {thrown : Exception}
    (hindex : index < (finalState input origin limits).calls)
    (hthrown : nextResult input origin limits index = .error thrown) :
    treeOutcome origin limits input = .error thrown := by
  have hrun := @readTree_surfaces input origin limits (parseFuel limits)
  unfold treeOutcome
  unfold finalState runDocument parseDocument at hindex
  simp only [Bind.bind, EStateM.bind] at hindex
  cases hread : readTree input origin limits (parseFuel limits) {} with
  | error exception after =>
      rw [hread] at hindex
      exact congrArg Except.error ((hrun.error hread) index hindex thrown hthrown)
  | ok root after =>
      rw [hread] at hindex
      have hcalls : index < after.calls := by
        cases hvalid : validateTree origin root (ascii "$") with
        | ok _ => simpa [hvalid, liftExcept, pure, EStateM.pure] using hindex
        | error exception =>
            have hlift : liftExcept (Except.error exception : Except Exception Unit) after =
              .error exception after := rfl
            simpa [hvalid, hlift] using hindex
      obtain ⟨event, hevent⟩ := (hrun.ok hread) index hcalls
      rw [hthrown] at hevent
      cases hevent

theorem documentOutcome_of_thrown {index : Nat} {thrown : Exception}
    (hindex : index < (finalState input origin limits).calls)
    (hthrown : nextResult input origin limits index = .error thrown) :
    documentOutcome input origin limits = .error thrown := by
  rw [documentOutcome_eq, treeOutcome_of_thrown hindex hthrown]
  rfl

/-- The throwing call is the last one. -/
theorem last_of_thrown {index : Nat} {thrown : Exception}
    (hindex : index < (finalState input origin limits).calls)
    (hthrown : nextResult input origin limits index = .error thrown) :
    index + 1 = (finalState input origin limits).calls := by
  by_contra hmore
  have hends : Ends (nextResult input origin limits index) := by
    rw [hthrown]
    exact .threw thrown
  exact finalState_stopped.earlier index (by omega) hends

/-- What is neither a `yaml_error` nor a `pkgsource::error` was thrown by a call. -/
theorem thrown_of_undecoded {α : Type} {decode : Node → Except Exception α}
    (hdecode : ∀ root, documentOutcome input origin limits = .ok root →
      Throws (decode root) Exception.IsDecoded)
    {exception : Exception} (hexception : ¬exception.IsDecoded)
    (h : (documentOutcome input origin limits >>= decode) = .error exception) :
    ∃ index, index + 1 = (finalState input origin limits).calls ∧
      nextResult input origin limits index = .error exception := by
  rcases bind_eq_error.mp h with hread | ⟨root, hroot, hvalue⟩
  · rcases documentOutcome_cause hread with hyaml | ⟨index, hindex, hthrown⟩
    · exact absurd (Or.inl hyaml) hexception
    · exact ⟨index, last_of_thrown hindex hthrown, hthrown⟩
  · exact absurd (hdecode root hroot exception hvalue) hexception

/-- **Provider failures surface unchanged.** In every run, a call that threw is the last one, and
`parse_document` and both entry points end with exactly what it threw. And an entry point ends with
something that is neither a `yaml_error` nor a `pkgsource::error`, such as `std::bad_alloc`, only if
its last call threw that. -/
theorem provider_failures_surface (core : Core) (context : Context) (order : EvaluationOrder)
    (input : Input) (limits : ParseLimits) :
    (∀ index thrown, index < (finalState input context.origin limits).calls →
      nextResult input context.origin limits index = .error thrown →
      index + 1 = (finalState input context.origin limits).calls ∧
        documentOutcome input context.origin limits = .error thrown ∧
        parseRecipeYaml core context order input limits = .error thrown ∧
        parseProfilesYaml core context input limits = .error thrown) ∧
    ∀ exception : Exception, ¬exception.IsDecoded →
      parseRecipeYaml core context order input limits = .error exception ∨
        parseProfilesYaml core context input limits = .error exception →
      ∃ index, index + 1 = (finalState input context.origin limits).calls ∧
        nextResult input context.origin limits index = .error exception := by
  refine ⟨fun index thrown hindex hthrown => ?_, fun exception hexception h => ?_⟩
  · have hdocument := documentOutcome_of_thrown hindex hthrown
    refine ⟨last_of_thrown hindex hthrown, hdocument, ?_, ?_⟩
    · unfold parseRecipeYaml
      rw [hdocument]
      rfl
    · unfold parseProfilesYaml
      rw [hdocument]
      rfl
  · rcases h with h | h
    · exact thrown_of_undecoded (fun root hroot =>
        throws_recipeValue (valid_of_documentOutcome hroot)) hexception h
    · exact thrown_of_undecoded (fun root hroot =>
        throws_profilesValue (valid_of_documentOutcome hroot)) hexception h

end PkgsourceYaml
