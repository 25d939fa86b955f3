import PkgsourceYaml.Document

/-!
# The libyaml provider

`yaml_event_reader_libyaml.cpp`: native libyaml events, and their translation into the normalized
events the document layer reads.
-/

namespace PkgsourceYaml

structure CString where
  bytes : Bytes
  terminated : 0 ∉ bytes
  deriving DecidableEq

/-- A `yaml_mark_t`: zero-based, and as wide as `size_t`. -/
structure NativeMark where
  line : Nat
  column : Nat
  deriving DecidableEq, Repr

/-- The members of `yaml_event_t` the reader looks at, by event type. Pointers are optional strings;
a scalar's value has its own length and may hold any byte. -/
inductive NativeData where
  | noEvent
  | streamStart
  | streamEnd
  | documentStart (versionDirective : Option (Nat × Nat)) (tagDirectives : List (CString × CString))
  | documentEnd
  | alias (anchor : Option CString)
  | scalar (anchor tag : Option CString) (value : Bytes)
  | sequenceStart (anchor tag : Option CString)
  | sequenceEnd
  | mappingStart (anchor tag : Option CString)
  | mappingEnd
  deriving DecidableEq

structure NativeEvent where
  startMark : NativeMark
  data : NativeData
  deriving DecidableEq

inductive NativeErrorType where
  | noError
  | memory
  | reader
  | scanner
  | parser
  | composer
  | writer
  | emitter
  deriving DecidableEq, Repr

inductive NativeResult where
  | event (native : NativeEvent)
  | failed (error : NativeErrorType) (problemMark : NativeMark) (problem : Option CString)
  deriving DecidableEq

def oneBasedPosition (value : Nat) : UInt32 :=
  if UInt32.size - 1 ≤ value then UInt32.ofNat (UInt32.size - 1) else UInt32.ofNat (value + 1)

def NativeMark.oneBased (mark : NativeMark) : SourceMark :=
  ⟨oneBasedPosition mark.line, oneBasedPosition mark.column⟩

/-- A null pointer and an empty string both become the empty `std::string`. -/
def copyYamlString : Option CString → Bytes
  | none => []
  | some text => text.bytes

def eventKind : NativeData → Except ProviderFailure YamlEventKind
  | .streamStart => .ok .streamStart
  | .streamEnd => .ok .streamEnd
  | .documentStart _ _ => .ok .documentStart
  | .documentEnd => .ok .documentEnd
  | .alias _ => .ok .alias
  | .scalar _ _ _ => .ok .scalar
  | .sequenceStart _ _ => .ok .sequenceStart
  | .sequenceEnd => .ok .sequenceEnd
  | .mappingStart _ _ => .ok .mappingStart
  | .mappingEnd => .ok .mappingEnd
  | .noEvent => .error (.logicError (ascii "libyaml returned an unknown event type"))

def nativeFailure (document : Bytes) (error : NativeErrorType) (problemMark : NativeMark)
    (problem : Option CString) : ProviderFailure :=
  match error with
  | .memory => .badAlloc
  | .reader | .scanner | .parser =>
      .yaml ⟨.syntaxError, document, ascii "$", problemMark.oneBased,
        (problem.map CString.bytes).getD (ascii "invalid YAML input")⟩
  | .noError | .composer | .writer | .emitter =>
      .logicError (ascii "libyaml parser failed outside parser error domain")

def copyMembers (result : YamlEvent) : NativeData → YamlEvent
  | .documentStart versionDirective tagDirectives =>
      { result with
        hasDirectives := versionDirective.isSome || !tagDirectives.isEmpty }
  | .alias anchor => { result with anchor := copyYamlString anchor }
  | .scalar anchor tag value =>
      { result with
        value := value, anchor := copyYamlString anchor, tag := copyYamlString tag }
  | .sequenceStart anchor tag =>
      { result with anchor := copyYamlString anchor, tag := copyYamlString tag }
  | .mappingStart anchor tag =>
      { result with anchor := copyYamlString anchor, tag := copyYamlString tag }
  | _ => result

/-- The normalization of one native result, before the reader's scalar limit. -/
def normalize (document : Bytes) : NativeResult → Except ProviderFailure YamlEvent
  | .failed error problemMark problem =>
      .error (nativeFailure document error problemMark problem)
  | .event native => do
      let kind ← eventKind native.data
      pure (copyMembers { kind := kind, mark := native.startMark.oneBased } native.data)

/-- `implementation::next` on one native result, its scalar limit included. -/
def nativeNext (origin : SourceOrigin) (maximumScalarBytes : Nat) :
    NativeResult → Except Exception YamlEvent
  | .failed error problemMark problem =>
      .error (nativeFailure origin.document error problemMark problem).exception
  | .event native =>
      match eventKind native.data with
      | .error failed => .error failed.exception
      | .ok kind =>
          let result : YamlEvent := { kind := kind, mark := native.startMark.oneBased }
          match native.data with
          | .scalar anchor tag value =>
              if maximumScalarBytes < value.length then
                .error (failure .resourceLimit origin (ascii "$") result.mark
                  (ascii "YAML scalar exceeds configured byte limit"))
              else
                .ok { result with
                  value := value, anchor := copyYamlString anchor, tag := copyYamlString tag }
          | data => .ok (copyMembers result data)

/-- The libyaml provider: one native result for each call. -/
def libyamlInput (origin : SourceOrigin) (byteLength : Nat) (native : Nat → NativeResult) : Input :=
  ⟨byteLength, fun index => normalize origin.document (native index)⟩

/-- The document layer, reading through the libyaml provider, sees `implementation::next`. -/
theorem nextResult_libyamlInput (origin : SourceOrigin) (limits : ParseLimits) (byteLength : Nat)
    (native : Nat → NativeResult) (index : Nat) :
    nextResult (libyamlInput origin byteLength native) origin limits index =
      nativeNext origin limits.maximumScalarBytes (native index) := by
  unfold nextResult libyamlInput
  cases hnative : native index with
  | failed error problemMark problem => simp [hnative, normalize, nativeNext]
  | event event =>
      obtain ⟨mark, data⟩ := event
      cases data <;> simp [hnative, normalize, nativeNext, eventKind, copyMembers, bind,
        Except.bind, pure, Except.pure]

end PkgsourceYaml
