import PkgsourceYaml.Libyaml
import PkgsourceYaml.Proof.Indexing

/-!
# Nothing is pulled past the end of the stream

A call of `next()` that throws or returns the stream's end is the last one of its run. The invariant
between two steps is that no call so far ended the stream. Only a step that fails may give it up.
-/

namespace PkgsourceYaml

open Throwing

variable {input : Input} {origin : SourceOrigin} {limits : ParseLimits}

def Step.pulled? : Step → Option (Except Exception YamlEvent)
  | .pull result => some result
  | _ => none

/-- The results of the calls of `next()` that a run made, in the order it made them. -/
def ParseState.pulls (state : ParseState) : List (Except Exception YamlEvent) :=
  (state.trace.filterMap Step.pulled?).reverse

/-- After these results of `next()` there is nothing more to pull. -/
inductive Ends : Except Exception YamlEvent → Prop where
  | threw (exception : Exception) : Ends (.error exception)
  | streamEnd (event : YamlEvent) (h : event.kind = .streamEnd) : Ends (.ok event)

theorem not_ends_ok {event : YamlEvent} (h : event.kind ≠ .streamEnd) : ¬Ends (.ok event) := by
  intro hends
  cases hends with
  | streamEnd _ hkind => exact h hkind

/-- The run has pulled the first `calls` results of the provider, none of which ended the stream but
perhaps the last. -/
structure Stopped (input : Input) (origin : SourceOrigin) (limits : ParseLimits)
    (state : ParseState) : Prop where
  pulls : state.pulls = (List.range state.calls).map (nextResult input origin limits)
  earlier : ∀ index, index + 1 < state.calls → ¬Ends (nextResult input origin limits index)

/-- The run may pull on: no result so far ended the stream. -/
structure Flowing (input : Input) (origin : SourceOrigin) (limits : ParseLimits)
    (state : ParseState) : Prop extends Stopped input origin limits state where
  latest : ∀ index, index + 1 = state.calls → ¬Ends (nextResult input origin limits index)

section

variable {state : ParseState}

theorem flowing_initial : Flowing input origin limits {} :=
  ⟨⟨rfl, fun _ h => absurd h (Nat.not_lt_zero _)⟩, fun _ h => absurd h (Nat.succ_ne_zero _)⟩

theorem ParseState.pulls_pulled (result : Except Exception YamlEvent) :
    (state.pulled result).pulls = state.pulls ++ [result] := by
  simp [ParseState.pulls, Step.pulled?]

theorem Stopped.entered {depth : Nat} (h : Stopped input origin limits state) :
    Stopped input origin limits (state.entered depth) := ⟨h.pulls, h.earlier⟩

theorem Flowing.admitted (depth : Nat) (scalar : Bytes) (h : Flowing input origin limits state) :
    Flowing input origin limits (state.admitted depth scalar) :=
  ⟨⟨h.pulls, h.earlier⟩, h.latest⟩

theorem Flowing.pulled (h : Flowing input origin limits state) :
    Stopped input origin limits
      (state.pulled (nextResult input origin limits state.calls)) := by
  refine ⟨?_, fun index hindex => ?_⟩
  · rw [ParseState.pulls_pulled, h.pulls, ParseState.calls_pulled, List.range_succ, List.map_append,
      List.map_singleton]
  · rw [ParseState.calls_pulled] at hindex
    by_cases hlatest : index + 1 = state.calls
    · exact h.latest index hlatest
    · exact h.earlier index (by omega)

theorem Flowing.pulledOn (h : Flowing input origin limits state)
    (hends : ¬Ends (nextResult input origin limits state.calls)) :
    Flowing input origin limits
      (state.pulled (nextResult input origin limits state.calls)) := by
  refine ⟨h.pulled, fun index hindex => ?_⟩
  obtain rfl : index = state.calls := Nat.succ_injective hindex
  exact hends

end

/-- The run has come to its end with an exception: a `yaml_error` or what its last call threw. -/
structure Halted (input : Input) (origin : SourceOrigin) (limits : ParseLimits)
    (exception : Exception) (state : ParseState) : Prop where
  stopped : Stopped input origin limits state
  cause : exception = .fuel ∨ exception.IsYaml ∨
    ∃ index < state.calls, nextResult input origin limits index = .error exception

theorem halted_failure {state : ParseState} {code : YamlErrorCode} {path : Bytes}
    {mark : SourceMark} {message : Bytes} (h : Stopped input origin limits state) :
    Halted input origin limits (failure code origin path mark message) state :=
  ⟨h, Or.inr (Or.inl (isYaml_failure _ _ _ _ _))⟩

/-- One call of `next()`: it may be followed by another unless it ends the stream. -/
theorem meets_next_flowing {state : ParseState} {Q : YamlEvent → ParseState → Prop}
    (hstate : Flowing input origin limits state)
    (hok : ∀ event after, Stopped input origin limits after →
      (event.kind ≠ .streamEnd → Flowing input origin limits after) →
      nextResult input origin limits state.calls = .ok event → after.calls = state.calls + 1 →
      Q event after) :
    Meets (next input origin limits) state Q (Halted input origin limits) := by
  refine meets_next (fun event hevent => ?_) fun exception herror => ?_
  · have hstopped := hstate.pulled
    have hflowing := hstate.pulledOn
    rw [hevent] at hstopped hflowing
    exact hok event _ hstopped (fun hkind => hflowing (not_ends_ok hkind)) hevent rfl
  · have hstopped := hstate.pulled
    rw [herror] at hstopped
    exact ⟨hstopped, Or.inr (Or.inr ⟨state.calls, Nat.lt_succ_self _, herror⟩)⟩

theorem parse_flows :
    (∀ fuel first path depth, ∀ state : ParseState, Stopped input origin limits state →
      (first.kind ≠ .streamEnd → Flowing input origin limits state) →
      Meets (parseNode input origin limits fuel first path depth) state
        (fun _ after => Flowing input origin limits after) (Halted input origin limits)) ∧
    ∀ fuel kind path depth index, ∀ state : ParseState, Flowing input origin limits state →
      Meets (parseChildren input origin limits fuel kind path depth index) state
        (fun _ after => Flowing input origin limits after) (Halted input origin limits) := by
  apply parseNode.mutual_induct
  · intro first path depth state hstopped _
    exact Meets.throw ⟨hstopped, Or.inl rfl⟩
  · intro fuel first path depth ih state hstopped hflowing
    rw [Nat.succ_eq_add_one, parseNode]
    refine Meets.bind (meets_admitNode (fun kind hopens _ _ => ?_) fun code message _ =>
      halted_failure hstopped.entered)
    -- the stream's end opens no node
    have hkind : first.kind ≠ .streamEnd := by
      intro hend
      have hnode := hopens.node
      rw [hend] at hnode
      cases hnode
    have hadmitted := (hflowing hkind).admitted depth (retainedScalar kind first)
    refine Meets.ite (fun _ => Meets.pure hadmitted) fun _ => ?_
    refine Meets.bind (Meets.mono (ih kind _ hadmitted) (fun children after _ hafter => ?_)
      fun _ _ _ h => h)
    exact Meets.ite (fun _ => Meets.throw (halted_failure hafter.toStopped)) fun _ =>
      Meets.pure hafter
  · intro kind path depth index state hstate
    exact Meets.throw ⟨hstate.toStopped, Or.inl rfl⟩
  · intro fuel kind path depth index ihNode ihRest state hstate
    rw [Nat.succ_eq_add_one, parseChildren]
    refine Meets.bind (meets_next_flowing hstate fun event after hstopped hflowing _ _ => ?_)
    refine Meets.ite (fun hends => Meets.pure (hflowing ?_)) fun _ => ?_
    · intro hkind
      rw [hkind] at hends
      cases kind <;> cases hends
    refine Meets.ite (fun _ => Meets.throw (halted_failure hstopped)) fun hmore => ?_
    rw [not_or] at hmore
    refine Meets.bind (Meets.mono (ihNode event after hstopped hflowing)
      (fun child middle _ hmiddle => ?_) fun _ _ _ h => h)
    exact Meets.bind (Meets.mono (ihRest middle hmiddle) (fun _ _ _ hlast => Meets.pure hlast)
      fun _ _ _ h => h)

/-- A run of the whole reader that succeeds ends with the stream. -/
theorem readTree_flows {fuel : Nat} :
    Meets (readTree input origin limits fuel) {}
      (fun _ after => Stopped input origin limits after ∧ ∃ index event,
        after.calls = index + 1 ∧ nextResult input origin limits index = .ok event ∧
          event.kind = .streamEnd)
      (Halted input origin limits) := by
  have hstart := @flowing_initial input origin limits
  unfold readTree
  apply Meets.ite (fun _ => Meets.throw (halted_failure hstart.toStopped))
  intro _
  refine Meets.bind (meets_next_flowing hstart fun first afterFirst hstopped hflowing _ _ => ?_)
  refine Meets.ite (fun _ => Meets.throw (halted_failure hstopped)) fun hkind => ?_
  have hfirst := hflowing (by rw [not_not.mp hkind]; decide)
  refine Meets.bind (meets_next_flowing hfirst fun second afterSecond hstopped hflowing _ _ => ?_)
  refine Meets.ite (fun _ => Meets.throw (halted_failure hstopped)) fun hkind => ?_
  have hsecond := hflowing (by rw [not_not.mp hkind]; decide)
  apply Meets.ite (fun _ => Meets.throw (halted_failure hstopped))
  intro _
  refine Meets.bind (meets_next_flowing hsecond fun third opened hstopped hflowing _ _ => ?_)
  apply Meets.ite (fun _ => Meets.throw (halted_failure hstopped))
  intro _
  refine Meets.bind (Meets.mono (parse_flows.1 fuel third _ 1 opened hstopped hflowing)
    (fun root after _ hafter => ?_) fun _ _ _ h => h)
  apply Meets.bind
  unfold readTree.readEnd
  refine Meets.bind (meets_next_flowing hafter fun fourth closed hstopped hflowing _ _ => ?_)
  refine Meets.ite (fun _ => Meets.throw (halted_failure hstopped)) fun hkind => ?_
  have hfourth := hflowing (by rw [not_not.mp hkind]; decide)
  refine Meets.bind (meets_next_flowing hfourth fun last ended hstopped _ hlast hcalls => ?_)
  apply Meets.ite (fun _ => Meets.throw (halted_failure hstopped))
  intro _
  refine Meets.ite (fun _ => Meets.throw (halted_failure hstopped)) fun hend => ?_
  exact Meets.pure (Meets.pure ⟨hstopped, closed.calls, last, hcalls, hlast, not_not.mp hend⟩)

theorem runDocument_flows :
    Meets (parseDocument input origin limits) {}
      (fun _ after => Stopped input origin limits after ∧ ∃ index event,
        after.calls = index + 1 ∧ nextResult input origin limits index = .ok event ∧
          event.kind = .streamEnd)
      (Halted input origin limits) := by
  unfold parseDocument
  refine Meets.bind (Meets.mono readTree_flows (fun root after hread hafter => ?_) fun _ _ _ h => h)
  obtain ⟨-, document, rfl, hspelled, -⟩ := readTree_sound.ok hread
  have hshaped := shaped_of_spelled hspelled
  apply Meets.bind
  cases hvalid : validateTree origin document.root.toNode (ascii "$") with
  | ok _ => exact Meets.pure (Meets.pure hafter)
  | error exception =>
      exact Meets.throw
        ⟨hafter.1, Or.inr (Or.inl (validate_throws.1 _ _ hshaped exception hvalid))⟩

theorem finalState_stopped : Stopped input origin limits (finalState input origin limits) := by
  have hrun := @runDocument_flows input origin limits
  unfold finalState runDocument
  cases hresult : parseDocument input origin limits {} with
  | ok root after => exact (hrun.ok hresult).1
  | error exception after => exact (hrun.error hresult).stopped

/-- A run that fails fails with a `yaml_error` or with what one of its own calls threw. -/
theorem documentOutcome_cause {exception : Exception}
    (h : documentOutcome input origin limits = .error exception) :
    exception.IsYaml ∨ ∃ index < (finalState input origin limits).calls,
      nextResult input origin limits index = .error exception := by
  have hrun := @runDocument_flows input origin limits
  have hfuel := @documentOutcome_ne_fuel input origin limits
  unfold documentOutcome finalState runDocument at *
  cases hresult : parseDocument input origin limits {} with
  | ok root after => simp [hresult] at h
  | error found after =>
      rw [hresult] at h hfuel
      obtain rfl := Except.error.inj h
      exact (hrun.error hresult).cause.resolve_left fun heq => hfuel (heq ▸ rfl)

/-! ### The unknown event type -/

/-- libyaml yields no event only after it has yielded the end of the stream. -/
def SilentAfterEnd (native : Nat → NativeResult) : Prop :=
  ∀ index mark, native index = .event ⟨mark, .noEvent⟩ →
    ∃ earlier < index, ∃ endMark, native earlier = .event ⟨endMark, .streamEnd⟩

def unknownEventType : Exception :=
  .logicError (ascii "libyaml returned an unknown event type")

section

variable {byteLength : Nat} {native : Nat → NativeResult}

/-- `event_kind` is the only source of its exception. -/
theorem noEvent_of_unknown {index : Nat}
    (h : nextResult (libyamlInput origin byteLength native) origin limits index =
      .error unknownEventType) : ∃ mark, native index = .event ⟨mark, .noEvent⟩ := by
  rw [nextResult_libyamlInput] at h
  cases hnative : native index with
  | failed error problemMark problem =>
      rw [hnative] at h
      have hother : ascii "libyaml parser failed outside parser error domain" ≠
          ascii "libyaml returned an unknown event type" := by decide
      cases error <;> simp [nativeNext, nativeFailure, ProviderFailure.exception, unknownEventType,
        hother] at h
  | event event =>
      obtain ⟨mark, data⟩ := event
      cases data with
      | noEvent => exact ⟨mark, rfl⟩
      | scalar anchor tag value =>
          rw [hnative, nativeNext, eventKind] at h
          by_cases hlong : limits.maximumScalarBytes < value.length <;>
            simp [hlong, unknownEventType, failure] at h
      | _ => simp [hnative, nativeNext, eventKind] at h

theorem ends_of_streamEnd {index : Nat} {mark : NativeMark}
    (h : native index = .event ⟨mark, .streamEnd⟩) :
    Ends (nextResult (libyamlInput origin byteLength native) origin limits index) := by
  rw [nextResult_libyamlInput, h]
  exact .streamEnd _ rfl

theorem no_noEvent_pulled (hsilent : SilentAfterEnd native) {index : Nat}
    (hindex : index < (finalState (libyamlInput origin byteLength native) origin limits).calls)
    (mark : NativeMark) : native index ≠ .event ⟨mark, .noEvent⟩ := by
  intro hnone
  obtain ⟨earlier, hearlier, endMark, hend⟩ := hsilent index mark hnone
  have hpulled : earlier + 1 <
      (finalState (libyamlInput origin byteLength native) origin limits).calls := by
    omega
  exact finalState_stopped.earlier earlier hpulled (ends_of_streamEnd hend)

theorem documentOutcome_ne_unknown (hsilent : SilentAfterEnd native) :
    documentOutcome (libyamlInput origin byteLength native) origin limits ≠
      .error unknownEventType := by
  intro herror
  rcases documentOutcome_cause herror with ⟨_, hyaml⟩ | ⟨index, hindex, hpulled⟩
  · cases hyaml
  · obtain ⟨mark, hnone⟩ := noEvent_of_unknown hpulled
    exact no_noEvent_pulled hsilent hindex mark hnone

end

theorem ne_unknown_of_decoded {α : Type} {x : Except Exception α}
    (h : Throws x Exception.IsDecoded) : x ≠ .error unknownEventType := by
  intro herror
  rcases h _ herror with ⟨_, hyaml⟩ | ⟨_, hcore⟩
  · cases hyaml
  · cases hcore

/-- **Nothing past the end.** In every run of `parse_document` the calls of `next()` are the first
ones of the provider, in order, and none is made after a call that threw or returned the stream's
end; a run that succeeds made its last call to the stream's end. So, where libyaml yields no event
only after the stream's end, no call meets an unknown event type, and its `std::logic_error` escapes
neither entry point. -/
theorem nothing_pulled_past_end (core : Core) (context : Context) (order : EvaluationOrder)
    (limits : ParseLimits) :
    (∀ input origin, (finalState input origin limits).pulls =
        (List.range (finalState input origin limits).calls).map (nextResult input origin limits) ∧
      (∀ index, index + 1 < (finalState input origin limits).calls →
        ¬Ends (nextResult input origin limits index)) ∧
      ∀ root, documentOutcome input origin limits = .ok root → ∃ index event,
        (finalState input origin limits).calls = index + 1 ∧
          nextResult input origin limits index = .ok event ∧ event.kind = .streamEnd) ∧
    ∀ byteLength native, SilentAfterEnd native →
      (∀ origin,
        ∀ index < (finalState (libyamlInput origin byteLength native) origin limits).calls,
          ∀ mark, native index ≠ .event ⟨mark, .noEvent⟩) ∧
      parseRecipeYaml core context order (libyamlInput context.origin byteLength native) limits ≠
        .error unknownEventType ∧
      parseProfilesYaml core context (libyamlInput context.origin byteLength native) limits ≠
        .error unknownEventType := by
  refine ⟨fun input origin => ⟨finalState_stopped.pulls, finalState_stopped.earlier,
    fun root hroot => ?_⟩, fun byteLength native hsilent =>
      ⟨fun origin index hindex mark => no_noEvent_pulled hsilent hindex mark, fun herror => ?_,
        fun herror => ?_⟩⟩
  · have hrun := @runDocument_flows input origin limits
    obtain ⟨after, hafter⟩ := documentOutcome_eq_ok_iff.mp hroot
    unfold finalState
    rw [hafter]
    exact (hrun.ok hafter).2
  · rcases bind_eq_error.mp herror with hread | ⟨root, hroot, hvalue⟩
    · exact documentOutcome_ne_unknown hsilent hread
    · have hdecoded := @throws_recipeValue core context order root (valid_of_documentOutcome hroot)
      exact ne_unknown_of_decoded hdecoded hvalue
  · rcases bind_eq_error.mp herror with hread | ⟨root, hroot, hvalue⟩
    · exact documentOutcome_ne_unknown hsilent hread
    · have hdecoded := @throws_profilesValue core context root (valid_of_documentOutcome hroot)
      exact ne_unknown_of_decoded hdecoded hvalue

/-- A stream that libyaml ends at once, and is silent about afterwards. -/
def emptyStream : Nat → NativeResult
  | 0 => .event ⟨⟨0, 0⟩, .streamStart⟩
  | 1 => .event ⟨⟨0, 0⟩, .streamEnd⟩
  | _ => .event ⟨⟨0, 0⟩, .noEvent⟩

theorem silentAfterEnd_emptyStream : SilentAfterEnd emptyStream := by
  intro index mark hnone
  refine ⟨1, ?_, ⟨0, 0⟩, rfl⟩
  rcases index with _ | _ | index
  · cases hnone
  · cases hnone
  · omega

theorem nothing_pulled_past_end_empty :
    parseRecipeYaml Core.permissive ⟨⟨ascii "recipe.yaml"⟩, false⟩ .textual
      (libyamlInput ⟨ascii "recipe.yaml"⟩ 0 emptyStream) {} ≠ .error unknownEventType :=
  ((nothing_pulled_past_end Core.permissive ⟨⟨ascii "recipe.yaml"⟩, false⟩ .textual {}).2 0
    emptyStream silentAfterEnd_emptyStream).2.1

end PkgsourceYaml
