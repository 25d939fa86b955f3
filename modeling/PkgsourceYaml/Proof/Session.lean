import Mathlib.Data.Nat.Find
import PkgsourceYaml.Session
import PkgsourceYaml.Proof.Causality
import PkgsourceYaml.Proof.Surfacing

/-!
# The session keeps to libyaml's protocol

One call of `next()` makes one native call, or two where there is an event to delete, and leaves
libyaml ready again unless the stream is over. The constructor and the destructor close the bracket.
-/

namespace PkgsourceYaml

open Questions Runs

variable {machine : Machine} {origin : SourceOrigin} {limits : ParseLimits} {byteLength : Nat}

/-- The native calls of call `index` of `next()`, in order. -/
def nextCalls (machine : Machine) (index : Nat) : List NativeCall :=
  match machine.native index with
  | .failed _ _ _ => [.parse (machine.native index)]
  | .event _ => [.parse (machine.native index), .deleteEvent]

def pulledCalls (machine : Machine) : Nat → Nat → List NativeCall
  | 0, _ => []
  | count + 1, index => nextCalls machine index ++ pulledCalls machine count (index + 1)

def Session.after (session : Session) (calls : List NativeCall) : Session :=
  { session with calls := calls.reverse ++ session.calls }

theorem Session.after_append (session : Session) (left right : List NativeCall) :
    session.after (left ++ right) = (session.after left).after right := by
  simp [Session.after, List.append_assoc]

theorem modify_bind {α : Type} (f : Session → Session) (next : SessionM α) (session : Session) :
    ((do modify f; next) : SessionM α) session = next (f session) :=
  rfl

/-- The call returns or throws its result, and the event is deleted either way. -/
theorem readerNext_eq (index : Nat) {session : Session} (h : session.initialized = false) :
    readerNext machine origin limits index session =
      liftSession (machine.result origin limits index)
        (session.after (nextCalls machine index)) := by
  obtain ⟨initialized, calls⟩ := session
  simp only at h
  subst h
  unfold readerNext withDestructor nextCalls
  cases hnative : machine.native index with
  | failed error problemMark problem =>
      rw [modify_bind]
      cases machine.result origin limits index with
      | ok event => rfl
      | error exception => rfl
  | event event =>
      rw [modify_bind]
      cases machine.result origin limits index with
      | ok event => rfl
      | error exception => rfl

theorem finalOf_liftSession {α : Type} (x : Except Exception α) (session : Session) :
    finalOf (liftSession x session) = session := by
  cases x with
  | ok a => rfl
  | error exception => rfl

theorem readerCalls_eq (count : Nat) : ∀ (index : Nat) {session : Session},
    session.initialized = false →
    readerCalls machine origin limits count index session =
      .ok () (session.after (pulledCalls machine count index)) := by
  induction count with
  | zero => exact fun _ _ _ => rfl
  | succ count ih =>
      intro index session h
      have hnext := ih (index + 1) (show (session.after (nextCalls machine index)).initialized =
        false from h)
      have hfinal : finalOf (readerNext machine origin limits index session) =
          session.after (nextCalls machine index) := by
        rw [readerNext_eq index h, finalOf_liftSession]
      calc readerCalls machine origin limits (count + 1) index session
          = readerCalls machine origin limits count (index + 1)
              (finalOf (readerNext machine origin limits index session)) := rfl
        _ = .ok () (session.after (pulledCalls machine (count + 1) index)) := by
            rw [hfinal, hnext, pulledCalls, Session.after_append]

/-- How many calls of `next()` the document layer makes of this machine. -/
def Machine.pulls (machine : Machine) (origin : SourceOrigin) (limits : ParseLimits)
    (byteLength : Nat) : Nat :=
  (finalState (machine.input origin byteLength) origin limits).calls

/-- The session with an initialised parser that has its input. -/
def openingCalls (byteLength : Nat) : List NativeCall :=
  [.initializeParser true,
    .setInput (if byteLength = 0 then .emptyInput else .callerBytes) byteLength]

theorem withDestructor_lift {α : Type} {destructor : Session → Session} {body : SessionM α}
    {x : Except Exception α} {session after : Session}
    (h : body session = liftSession x after) :
    withDestructor destructor body session = liftSession x (destructor after) := by
  unfold withDestructor
  rw [h]
  cases x with
  | ok a => rfl
  | error exception => rfl

theorem withReader_eq {α : Type} {body : SessionM α} {x : Except Exception α}
    {calls : List NativeCall} (hconstructs : machine.constructs = true)
    (hinitializes : machine.initializes = true)
    (h : ∀ session : Session, session.initialized = false →
      body session = liftSession x (session.after calls)) :
    withReader machine byteLength body {} = liftSession x
      (({} : Session).after (openingCalls byteLength ++ calls ++ [.deleteParser])) := by
  unfold withReader
  rw [if_neg (by simp [hconstructs]), if_neg (by simp [hinitializes]), hinitializes]
  have hbody := h (({} : Session).after (openingCalls byteLength)) rfl
  have hscope : withDestructor (·.called .deleteParser) (do
      modify (·.called
        (.setInput (if byteLength = 0 then .emptyInput else .callerBytes) byteLength))
      body) (({} : Session).called (.initializeParser true)) =
      liftSession x
        ((({} : Session).after (openingCalls byteLength ++ calls)).called .deleteParser) := by
    apply withDestructor_lift
    rw [Session.after_append]
    exact hbody
  have hclosed : (({} : Session).after (openingCalls byteLength ++ calls)).called .deleteParser =
      ({} : Session).after (openingCalls byteLength ++ calls ++ [.deleteParser]) := by
    rw [Session.after_append _ _ [.deleteParser]]
    rfl
  rw [← hclosed]
  exact hscope

theorem nativeDocument_eq :
    nativeDocument machine origin limits byteLength {} =
      if limits.maximumDocumentBytes < byteLength then
        .error (failure .resourceLimit origin (ascii "$") ⟨1, 1⟩
          (ascii "YAML document exceeds configured byte limit")) {}
      else if machine.constructs = false then
        .error .badAlloc {}
      else if machine.initializes = false then
        .error .badAlloc (({} : Session).after [.initializeParser false])
      else
        liftSession (documentOutcome (machine.input origin byteLength) origin limits)
          (({} : Session).after (openingCalls byteLength ++
            pulledCalls machine (machine.pulls origin limits byteLength) 0 ++
            [.deleteParser])) := by
  unfold nativeDocument
  by_cases hbytes : limits.maximumDocumentBytes < byteLength
  · rw [if_pos hbytes, if_pos hbytes]
    rfl
  rw [if_neg hbytes, if_neg hbytes]
  by_cases hconstructs : machine.constructs = false
  · rw [if_pos hconstructs, withReader, if_pos hconstructs]
    rfl
  rw [if_neg hconstructs]
  by_cases hinitializes : machine.initializes = false
  · rw [if_pos hinitializes, withReader, if_neg hconstructs, if_pos hinitializes, hinitializes]
    rfl
  rw [if_neg hinitializes]
  apply withReader_eq (by simpa using hconstructs) (by simpa using hinitializes)
  intro session hsession
  simp only [Bind.bind, EStateM.bind, readerCalls_eq _ 0 hsession, Machine.pulls]

theorem nativeCalls_eq :
    nativeCalls machine origin limits byteLength =
      if limits.maximumDocumentBytes < byteLength ∨ machine.constructs = false then
        []
      else if machine.initializes = false then
        [.initializeParser false]
      else
        openingCalls byteLength ++
          pulledCalls machine (machine.pulls origin limits byteLength) 0 ++ [.deleteParser] := by
  unfold nativeCalls
  rw [nativeDocument_eq]
  by_cases hbytes : limits.maximumDocumentBytes < byteLength
  · rw [if_pos hbytes, if_pos (Or.inl hbytes)]
    rfl
  rw [if_neg hbytes]
  by_cases hconstructs : machine.constructs = false
  · rw [if_pos hconstructs, if_pos (Or.inr hconstructs)]
    rfl
  rw [if_neg hconstructs, if_neg (not_or.mpr ⟨hbytes, hconstructs⟩)]
  by_cases hinitializes : machine.initializes = false
  · rw [if_pos hinitializes, if_pos hinitializes]
    rfl
  rw [if_neg hinitializes, if_neg hinitializes, finalOf_liftSession]
  simp [Session.after]

/-! ### The protocol -/

/-- The document layer sees exactly what the calls of `next()` return and throw. -/
theorem nextResult_machine (index : Nat) :
    nextResult (machine.input origin byteLength) origin limits index =
      machine.result origin limits index := by
  unfold Machine.result
  by_cases hrefused : machine.refuses index = true ∧ (machine.native index).allocates = true
  · rw [if_pos hrefused]
    unfold nextResult
    simp only [Machine.input, if_pos hrefused]
    rfl
  · rw [if_neg hrefused, ← nextResult_libyamlInput origin limits byteLength]
    unfold nextResult
    simp only [Machine.input, if_neg hrefused, libyamlInput]

def NativeResult.leaves : NativeResult → ApiState
  | .failed _ _ _ => .broken
  | .event native => if native.isStreamEnd then .ended else .ready

/-- One call of `next()` keeps to the protocol and owns nothing afterwards. -/
theorem run_nextCalls (index : Nat) :
    Run ApiStep .ready (nextCalls machine index) (machine.native index).leaves := by
  unfold nextCalls
  cases hnative : machine.native index with
  | failed error problemMark problem => exact Run.single .failed
  | event event => exact (Run.single .parsed).snoc .deleteEvent

/-- A call after which there is another one returned an event that did not end the stream. -/
theorem leaves_of_not_ends {index : Nat}
    (h : ¬Ends (machine.result origin limits index)) :
    (machine.native index).leaves = .ready := by
  unfold Machine.result at h
  by_cases hrefused : machine.refuses index = true ∧ (machine.native index).allocates = true
  · rw [if_pos hrefused] at h
    exact absurd (.threw _) h
  rw [if_neg hrefused] at h
  cases hnative : machine.native index with
  | failed error problemMark problem =>
      rw [hnative, nativeNext] at h
      exact absurd (.threw _) h
  | event event =>
      obtain ⟨mark, data⟩ := event
      cases data with
      | streamEnd =>
          rw [hnative] at h
          exact absurd (.streamEnd _ rfl) h
      | _ => rfl

theorem run_pulledCalls (count : Nat) : ∀ index,
    (∀ earlier, index ≤ earlier → earlier + 1 < index + count →
      (machine.native earlier).leaves = .ready) →
    ∃ state, (state = .ready ∨ state = .ended ∨ state = .broken) ∧
      Run ApiStep .ready (pulledCalls machine count index) state := by
  induction count with
  | zero => exact fun _ _ => ⟨.ready, Or.inl rfl, Run.nil⟩
  | succ count ih =>
      intro index hearlier
      by_cases hlast : count = 0
      · subst hlast
        refine ⟨(machine.native index).leaves, ?_, ?_⟩
        · cases machine.native index with
          | failed error problemMark problem => exact Or.inr (Or.inr rfl)
          | event event =>
              by_cases hend : event.isStreamEnd = true
              · exact Or.inr (Or.inl (if_pos hend))
              · exact Or.inl (if_neg hend)
        · rw [pulledCalls, pulledCalls, List.append_nil]
          exact run_nextCalls index
      · obtain ⟨state, hstate, hrest⟩ := ih (index + 1) fun earlier hindex hcount =>
          hearlier earlier (by omega) (by omega)
        have hfirst := @run_nextCalls machine index
        rw [hearlier index (Nat.le_refl _) (by omega)] at hfirst
        exact ⟨state, hstate, hfirst.append hrest⟩

def ApiState.events : ApiState → Nat
  | .holding _ => 1
  | _ => 0

def ApiState.parsers : ApiState → Nat
  | .absent => 0
  | _ => 1

/-- What a run of the protocol has not deleted yet is what libyaml still holds. -/
theorem held_of_run {calls : List NativeCall} {state : ApiState}
    (h : Run ApiStep .absent calls state) :
    calls.countP NativeCall.fillsEvent = calls.count .deleteEvent + state.events ∧
      calls.count (.initializeParser true) = calls.count .deleteParser + state.parsers := by
  refine h.invariant (I := fun calls state =>
    calls.countP NativeCall.fillsEvent = calls.count .deleteEvent + state.events ∧
      calls.count (.initializeParser true) = calls.count .deleteParser + state.parsers)
    ⟨rfl, rfl⟩ ?_
  intro calls state call after hheld hstep
  rw [List.countP_append, List.count_append, List.count_append, List.count_append, hheld.1, hheld.2]
  cases hstep with
  | initialized => exact ⟨rfl, rfl⟩
  | uninitialized => exact ⟨rfl, rfl⟩
  | setInput _ => exact ⟨rfl, rfl⟩
  | parsed => exact ⟨rfl, rfl⟩
  | failed => exact ⟨rfl, rfl⟩
  | @deleteEvent last => cases last <;> exact ⟨rfl, rfl⟩
  | deleteParser hstate => rcases hstate with rfl | rfl | rfl <;> exact ⟨rfl, rfl⟩

theorem run_nativeCalls :
    Run ApiStep .absent (nativeCalls machine origin limits byteLength) .absent := by
  rw [nativeCalls_eq]
  by_cases hnone : limits.maximumDocumentBytes < byteLength ∨ machine.constructs = false
  · rw [if_pos hnone]
    exact Run.nil
  rw [if_neg hnone]
  by_cases hinitializes : machine.initializes = false
  · rw [if_pos hinitializes]
    exact Run.single .uninitialized
  rw [if_neg hinitializes]
  have hopening : Run ApiStep .absent (openingCalls byteLength) .ready := by
    refine (Run.single .initialized).snoc (.setInput fun hpointer => ?_)
    by_contra hempty
    rw [if_pos (Nat.eq_zero_of_not_pos hempty)] at hpointer
    cases hpointer
  obtain ⟨state, hstate, hpulled⟩ := @run_pulledCalls machine
    (machine.pulls origin limits byteLength) 0 fun earlier _ hcount => by
      rw [Nat.zero_add] at hcount
      have hgoing := (@finalState_stopped _ _ limits).earlier earlier hcount
      rw [nextResult_machine] at hgoing
      exact leaves_of_not_ends hgoing
  exact (hopening.append hpulled).snoc (.deleteParser hstate)

/-- **The session is balanced.** Whatever libyaml returns, whichever allocation is refused, and
however `parse_document` ends, its native calls follow libyaml's protocol from no parser to no
parser: an event is deleted before the next native call, nothing is parsed after an error or after
the stream's end, and at the end as many events and parsers were deleted as libyaml had filled in
and initialised. -/
theorem native_calls_balanced (machine : Machine) (origin : SourceOrigin) (limits : ParseLimits)
    (byteLength : Nat) :
    Run ApiStep .absent (nativeCalls machine origin limits byteLength) .absent ∧
    (nativeCalls machine origin limits byteLength).countP NativeCall.fillsEvent =
      (nativeCalls machine origin limits byteLength).count .deleteEvent ∧
    (nativeCalls machine origin limits byteLength).count (.initializeParser true) =
      (nativeCalls machine origin limits byteLength).count .deleteParser :=
  ⟨run_nativeCalls, held_of_run run_nativeCalls⟩

/-! ### Refused allocations -/

theorem nativeOutcome_eq :
    nativeOutcome machine origin limits byteLength =
      if limits.maximumDocumentBytes < byteLength then
        .error (failure .resourceLimit origin (ascii "$") ⟨1, 1⟩
          (ascii "YAML document exceeds configured byte limit"))
      else if machine.constructs = false ∨ machine.initializes = false then
        .error .badAlloc
      else
        documentOutcome (machine.input origin byteLength) origin limits := by
  unfold nativeOutcome
  rw [nativeDocument_eq]
  by_cases hbytes : limits.maximumDocumentBytes < byteLength
  · rw [if_pos hbytes, if_pos hbytes]
  rw [if_neg hbytes, if_neg hbytes]
  by_cases hconstructs : machine.constructs = false
  · rw [if_pos hconstructs, if_pos (Or.inl hconstructs)]
  rw [if_neg hconstructs]
  by_cases hinitializes : machine.initializes = false
  · rw [if_pos hinitializes, if_pos (Or.inr hinitializes)]
  rw [if_neg hinitializes, if_neg (not_or.mpr ⟨hconstructs, hinitializes⟩)]
  cases documentOutcome (machine.input origin byteLength) origin limits with
  | ok root => rfl
  | error exception => rfl

theorem result_of_granted {index : Nat}
    (h : ¬(machine.refuses index = true ∧ (machine.native index).allocates = true)) :
    nextResult (machine.input origin byteLength) origin limits index =
      nextResult (libyamlInput origin byteLength machine.native) origin limits index := by
  rw [nextResult_machine, nextResult_libyamlInput, Machine.result, if_neg h]

theorem nativeNext_eq_badAlloc_iff {maximumScalarBytes : Nat} {result : NativeResult} :
    nativeNext origin maximumScalarBytes result = .error .badAlloc ↔
      ∃ problemMark problem, result = .failed .memory problemMark problem := by
  cases result with
  | failed error problemMark problem =>
      cases error <;> simp [nativeNext, nativeFailure, ProviderFailure.exception]
  | event event =>
      obtain ⟨mark, data⟩ := event
      cases data with
      | scalar anchor tag value =>
          simp only [nativeNext, eventKind, reduceCtorEq, exists_false, iff_false]
          intro hbad
          by_cases hlong : maximumScalarBytes < value.length
          · rw [if_pos hlong] at hbad
            cases hbad
          · rw [if_neg hlong] at hbad
            cases hbad
      | _ => simp [nativeNext, eventKind, ProviderFailure.exception]

/-- A call throws `std::bad_alloc` exactly if it lacks memory. -/
theorem result_eq_badAlloc_iff {index : Nat} :
    machine.result origin limits index = .error .badAlloc ↔ machine.LacksMemory index := by
  unfold Machine.result Machine.LacksMemory
  by_cases hrefused : machine.refuses index = true ∧ (machine.native index).allocates = true
  · rw [if_pos hrefused]
    exact iff_of_true rfl (Or.inr hrefused)
  · rw [if_neg hrefused, nativeNext_eq_badAlloc_iff, or_iff_left hrefused]

/-- Until a call lacks memory the two runs are one. -/
theorem lack_is_pulled {index : Nat}
    (hindex : index <
      (finalState (libyamlInput origin byteLength machine.native) origin limits).calls)
    (hfirst : ∀ earlier < index, ¬machine.LacksMemory earlier) :
    index < (finalState (machine.input origin byteLength) origin limits).calls := by
  by_contra hstops
  have hsame : SamePulls (machine.input origin byteLength)
      (libyamlInput origin byteLength machine.native) origin limits :=
    ⟨Iff.rfl, fun earlier hearlier =>
      result_of_granted fun hrefused => hfirst earlier (by omega) (Or.inr hrefused)⟩
  rw [finalState_of_samePulls hsame] at hindex
  exact hstops hindex

theorem nativeOutcome_of_exhausted (h : machine.Exhausted origin limits byteLength) :
    nativeOutcome machine origin limits byteLength = .error .badAlloc := by
  obtain ⟨hbytes, hexhausted⟩ := h
  rw [nativeOutcome_eq, if_neg (Nat.not_lt.mpr hbytes)]
  by_cases hstart : machine.constructs = false ∨ machine.initializes = false
  · rw [if_pos hstart]
  rw [if_neg hstart]
  rw [← or_assoc, or_iff_right hstart] at hexhausted
  classical
  -- the first call that lacks memory is made
  obtain ⟨hindex, hlacks⟩ := Nat.find_spec hexhausted
  have hpulled := lack_is_pulled hindex fun earlier hearlier hother =>
    Nat.find_min hexhausted hearlier ⟨Nat.lt_trans hearlier hindex, hother⟩
  have hthrown : nextResult (machine.input origin byteLength) origin limits
      (Nat.find hexhausted) = .error .badAlloc := by
    rw [nextResult_machine]
    exact result_eq_badAlloc_iff.mpr hlacks
  exact documentOutcome_of_thrown hpulled hthrown

theorem nativeOutcome_of_not_exhausted (h : ¬machine.Exhausted origin limits byteLength) :
    nativeOutcome machine origin limits byteLength =
      documentOutcome (libyamlInput origin byteLength machine.native) origin limits := by
  rw [nativeOutcome_eq]
  by_cases hbytes : limits.maximumDocumentBytes < byteLength
  · rw [if_pos hbytes, documentOutcome, runDocument_of_exceeded]
    exact hbytes
  rw [if_neg hbytes]
  have hgranted : ¬(machine.constructs = false ∨ machine.initializes = false) ∧
      ¬∃ index < (finalState (libyamlInput origin byteLength machine.native) origin limits).calls,
        machine.LacksMemory index := by
    rw [← not_or, or_assoc]
    exact fun hlacks => h ⟨Nat.le_of_not_lt hbytes, hlacks⟩
  rw [if_neg hgranted.1]
  have hsame : SamePulls (libyamlInput origin byteLength machine.native)
      (machine.input origin byteLength) origin limits :=
    ⟨Iff.rfl, fun index hindex => (result_of_granted fun hrefused =>
      hgranted.2 ⟨index, hindex, Or.inr hrefused⟩).symm⟩
  exact documentOutcome_of_samePulls hsame

/-- **`std::bad_alloc` means that the reader lacked memory.** `parse_document` throws it exactly if
there is none for the implementation object, libyaml cannot initialise its parser, or a call of
`next()` that the run makes gets libyaml's memory error or is refused the strings it builds. In
every other case the run comes to the same end as over libyaml with all the memory it wants: no
partial event is ever taken for a whole one. -/
theorem refusal_ends_in_bad_alloc (machine : Machine) (origin : SourceOrigin)
    (limits : ParseLimits) (byteLength : Nat) :
    (nativeOutcome machine origin limits byteLength = .error .badAlloc ↔
      machine.Exhausted origin limits byteLength) ∧
    (¬machine.Exhausted origin limits byteLength →
      nativeOutcome machine origin limits byteLength =
        documentOutcome (libyamlInput origin byteLength machine.native) origin limits) := by
  refine ⟨⟨fun hbad => ?_, nativeOutcome_of_exhausted⟩, nativeOutcome_of_not_exhausted⟩
  by_contra hexhausted
  rw [nativeOutcome_of_not_exhausted hexhausted] at hbad
  -- within the byte ceiling and with a reader, only a call of `next()` can have thrown it
  rcases documentOutcome_cause hbad with ⟨_, hyaml⟩ | ⟨index, hindex, hthrown⟩
  · cases hyaml
  · rw [nextResult_libyamlInput, nativeNext_eq_badAlloc_iff] at hthrown
    have hbytes : byteLength ≤ limits.maximumDocumentBytes := by
      by_contra hexceeded
      have hrun := @runDocument_of_exceeded
        (libyamlInput origin byteLength machine.native) origin limits (Nat.lt_of_not_le hexceeded)
      rw [documentOutcome, hrun] at hbad
      cases hbad
    exact hexhausted ⟨hbytes, Or.inr (Or.inr ⟨index, hindex, Or.inl hthrown⟩)⟩

end PkgsourceYaml
