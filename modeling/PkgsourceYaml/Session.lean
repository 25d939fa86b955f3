import PkgsourceYaml.Libyaml
import PkgsourceYaml.Library.Questions
import PkgsourceYaml.Library.Runs

/-!
# The libyaml session

`yaml_event_reader_libyaml.cpp` once more, with the native objects it owns: one parser for a whole
document, and one event for each call of `next()`. The machine below decides what libyaml returns
and which allocations are refused, and the session records the native calls made.
-/

namespace PkgsourceYaml

open Questions

/-- What `yaml_parser_set_input_string` is given: the static `empty_input`, or the caller's bytes,
whose pointer may be null when there are none. -/
inductive InputPointer where
  | emptyInput
  | callerBytes
  deriving DecidableEq, Repr

inductive NativeCall where
  | initializeParser (succeeded : Bool)
  | setInput (pointer : InputPointer) (size : Nat)
  | parse (result : NativeResult)
  | deleteEvent
  | deleteParser
  deriving DecidableEq

/-- What the process and libyaml do: whether there is memory for the implementation object, whether
`yaml_parser_initialize` succeeds, what each `yaml_parser_parse` comes to, and whether an allocation
of that call of `next()` is refused, if it makes any. -/
structure Machine where
  constructs : Bool
  initializes : Bool
  native : Nat → NativeResult
  refuses : Nat → Bool

/-- The flag of the `native_event` in scope, and the native calls made so far, latest first. -/
structure Session where
  initialized : Bool := false
  calls : List NativeCall := []

abbrev SessionM := EStateM Exception Session

def Session.called (session : Session) (call : NativeCall) : Session :=
  { session with calls := call :: session.calls }

def Session.markInitialized (session : Session) : Session :=
  { session with initialized := true }

/-- `~native_event` -/
def Session.destroyEvent (session : Session) : Session :=
  if session.initialized then
    { initialized := false, calls := .deleteEvent :: session.calls }
  else
    session

/-- A scope that ends with a destructor, on every path. -/
def withDestructor {α : Type} (destructor : Session → Session) (body : SessionM α) : SessionM α :=
  fun session =>
    match body session with
    | .ok a after => .ok a (destructor after)
    | .error exception after => .error exception (destructor after)

/-- The branches of `next()` that build a `std::string`, for the result or for an exception. -/
def NativeResult.allocates : NativeResult → Bool
  | .failed _ _ _ => true
  | .event native =>
      match native.data with
      | .noEvent | .alias _ | .scalar _ _ _ | .sequenceStart _ _ | .mappingStart _ _ => true
      | _ => false

variable (machine : Machine) (origin : SourceOrigin) (limits : ParseLimits) (byteLength : Nat)

/-- What call `index` of `next()` returns or throws. -/
def Machine.result (index : Nat) : Except Exception YamlEvent :=
  if machine.refuses index = true ∧ (machine.native index).allocates = true then
    .error .badAlloc
  else
    nativeNext origin limits.maximumScalarBytes (machine.native index)

def liftSession {α : Type} : Except Exception α → SessionM α
  | .ok a => pure a
  | .error exception => throw exception

/-- `implementation::next`: the event is owned only once libyaml has filled it in. -/
def readerNext (index : Nat) : SessionM YamlEvent :=
  withDestructor Session.destroyEvent do
    modify (·.called (.parse (machine.native index)))
    match machine.native index with
    | .failed _ _ _ => liftSession (machine.result origin limits index)
    | .event _ => do
        modify Session.markInitialized
        liftSession (machine.result origin limits index)

/-- The constructor and the destructor of `implementation`, around what is done with the reader. -/
def withReader {α : Type} (body : SessionM α) : SessionM α := do
  if machine.constructs = false then
    throw .badAlloc
  else do
    modify (·.called (.initializeParser machine.initializes))
    if machine.initializes = false then
      throw .badAlloc
    else
      withDestructor (·.called .deleteParser) do
        modify (·.called
          (.setInput (if byteLength = 0 then .emptyInput else .callerBytes) byteLength))
        body

/-- The calls of `next()` from `index` on, as many as `count`, whatever they come to. -/
def readerCalls : Nat → Nat → SessionM Unit
  | 0, _ => pure ()
  | count + 1, index => fun session =>
      readerCalls count (index + 1) (finalOf (readerNext machine origin limits index session))

/-- What the document layer sees of the machine. -/
def Machine.input : Input where
  byteLength := byteLength
  provider index :=
    if machine.refuses index = true ∧ (machine.native index).allocates = true then
      .error .badAlloc
    else
      normalize origin.document (machine.native index)

/-- `parse_document` with its native calls: the byte limit before there is a reader, then the calls
the document layer makes, and its outcome. -/
def nativeDocument : SessionM Node := do
  if limits.maximumDocumentBytes < byteLength then
    throw (failure .resourceLimit origin (ascii "$") ⟨1, 1⟩
      (ascii "YAML document exceeds configured byte limit"))
  else
    withReader machine byteLength do
      readerCalls machine origin limits
        (finalState (machine.input origin byteLength) origin limits).calls 0
      liftSession (documentOutcome (machine.input origin byteLength) origin limits)

/-- The native calls of a whole run of `parse_document`, in the order they are made. -/
def nativeCalls : List NativeCall :=
  (finalOf (nativeDocument machine origin limits byteLength {})).calls.reverse

def nativeOutcome : Except Exception Node :=
  match nativeDocument machine origin limits byteLength {} with
  | .ok root _ => .ok root
  | .error exception _ => .error exception

/-! ### What libyaml asks of its caller -/

inductive ApiState where
  /-- no parser: not yet, not any more, or never -/
  | absent
  | fresh
  | ready
  /-- an event waits to be deleted; `last` if it ended the stream -/
  | holding (last : Bool)
  | ended
  | broken
  deriving DecidableEq, Repr

def NativeEvent.isStreamEnd (event : NativeEvent) : Bool :=
  event.data = .streamEnd

/-- The calls libyaml allows, and where they lead. An event is deleted before the next call of the
parser, only an initialised parser or event is deleted, a parser is given its input before anything
else and only then, nothing is parsed after an error or after the stream's end, and the input
pointer is not null. -/
inductive ApiStep : ApiState → NativeCall → ApiState → Prop where
  | initialized : ApiStep .absent (.initializeParser true) .fresh
  | uninitialized : ApiStep .absent (.initializeParser false) .absent
  | setInput {pointer : InputPointer} {size : Nat} (h : pointer = .callerBytes → 0 < size) :
      ApiStep .fresh (.setInput pointer size) .ready
  | parsed {event : NativeEvent} :
      ApiStep .ready (.parse (.event event)) (.holding event.isStreamEnd)
  | failed {error : NativeErrorType} {problemMark : NativeMark} {problem : Option CString} :
      ApiStep .ready (.parse (.failed error problemMark problem)) .broken
  | deleteEvent {last : Bool} :
      ApiStep (.holding last) .deleteEvent (if last then .ended else .ready)
  | deleteParser {state : ApiState} (h : state = .ready ∨ state = .ended ∨ state = .broken) :
      ApiStep state .deleteParser .absent

/-- The call fills in an event that its caller then owns. -/
def NativeCall.fillsEvent : NativeCall → Bool
  | .parse (.event _) => true
  | _ => false

/-- A call of `next()` lacks memory: libyaml says so, or the strings the call builds are refused. -/
def Machine.LacksMemory (machine : Machine) (index : Nat) : Prop :=
  (∃ problemMark problem, machine.native index = .failed .memory problemMark problem) ∨
    (machine.refuses index = true ∧ (machine.native index).allocates = true)

/-- The reader lacks memory: there is none for the implementation object, libyaml cannot initialise
its parser, or a call lacks it that the run makes of libyaml as it is. What the document layer
itself allocates is never refused here. -/
def Machine.Exhausted (machine : Machine) (origin : SourceOrigin) (limits : ParseLimits)
    (byteLength : Nat) : Prop :=
  byteLength ≤ limits.maximumDocumentBytes ∧
    (machine.constructs = false ∨ machine.initializes = false ∨
      ∃ index < (finalState (libyamlInput origin byteLength machine.native) origin limits).calls,
        machine.LacksMemory index)

end PkgsourceYaml
