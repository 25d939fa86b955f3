import PkgsourceYaml.Failure

/-!
# The event reader

The document layer pulls normalized events from a provider. Nothing is assumed of the provider: it
is an arbitrary sequence of results, one for each call, that never ends. The state of a run holds
the reader's position, the retained-node counter of `parse_state`, and a trace of what the run did,
which no step reads.
-/

namespace PkgsourceYaml

inductive YamlEventKind where
  | streamStart
  | streamEnd
  | documentStart
  | documentEnd
  | alias
  | scalar
  | sequenceStart
  | sequenceEnd
  | mappingStart
  | mappingEnd
  deriving DecidableEq, Repr

structure YamlEvent where
  kind : YamlEventKind
  mark : SourceMark := ⟨1, 1⟩
  value : Bytes := []
  anchor : Bytes := []
  tag : Bytes := []
  hasDirectives : Bool := false
  deriving DecidableEq, Repr

/-- How a provider call fails: it rejects the input, or it cannot go on. -/
inductive ProviderFailure where
  | yaml (error : YamlError)
  | badAlloc
  | logicError (what : Bytes)
  deriving DecidableEq, Repr

def ProviderFailure.exception : ProviderFailure → Exception
  | .yaml error => .yaml error
  | .badAlloc => .badAlloc
  | .logicError what => .logicError what

abbrev Provider := Nat → Except ProviderFailure YamlEvent

/-- Caller-owned document bytes, as far as the parser sees them: how many there are, and the events
the provider draws from them. -/
structure Input where
  byteLength : Nat
  provider : Provider

/-- What a run did: a call of `next()` with its result, an entry of `parse_node` at a depth, or the
retention of one node holding scalar bytes. -/
inductive Step where
  | pull (result : Except Exception YamlEvent)
  | enter (depth : Nat)
  | retain (scalar : Bytes)

/-- The reader's position, the `nodes` counter of `parse_state`, and the steps taken so far, latest
first. -/
structure ParseState where
  calls : Nat := 0
  nodes : Nat := 0
  trace : List Step := []

abbrev ParseM := EStateM Exception ParseState

def ParseState.pulled (state : ParseState) (result : Except Exception YamlEvent) : ParseState :=
  { state with calls := state.calls + 1, trace := .pull result :: state.trace }

def ParseState.entered (state : ParseState) (depth : Nat) : ParseState :=
  { state with trace := .enter depth :: state.trace }

def ParseState.accounted (state : ParseState) : ParseState :=
  { state with nodes := state.nodes + 1 }

def ParseState.retained (state : ParseState) (scalar : Bytes) : ParseState :=
  { state with trace := .retain scalar :: state.trace }

section

variable (state : ParseState) (result : Except Exception YamlEvent) (depth : Nat) (scalar : Bytes)

@[simp] theorem ParseState.calls_pulled : (state.pulled result).calls = state.calls + 1 := rfl
@[simp] theorem ParseState.nodes_pulled : (state.pulled result).nodes = state.nodes := rfl
@[simp] theorem ParseState.trace_pulled :
    (state.pulled result).trace = .pull result :: state.trace := rfl
@[simp] theorem ParseState.calls_entered : (state.entered depth).calls = state.calls := rfl
@[simp] theorem ParseState.nodes_entered : (state.entered depth).nodes = state.nodes := rfl
@[simp] theorem ParseState.trace_entered :
    (state.entered depth).trace = .enter depth :: state.trace := rfl
@[simp] theorem ParseState.calls_accounted : state.accounted.calls = state.calls := rfl
@[simp] theorem ParseState.nodes_accounted : state.accounted.nodes = state.nodes + 1 := rfl
@[simp] theorem ParseState.trace_accounted : state.accounted.trace = state.trace := rfl
@[simp] theorem ParseState.calls_retained : (state.retained scalar).calls = state.calls := rfl
@[simp] theorem ParseState.nodes_retained : (state.retained scalar).nodes = state.nodes := rfl
@[simp] theorem ParseState.trace_retained :
    (state.retained scalar).trace = .retain scalar :: state.trace := rfl

end

variable (input : Input) (origin : SourceOrigin) (limits : ParseLimits)

/-- The result of call number `index` of `next()`: what the provider yields, unless it is a scalar
longer than the reader admits. -/
def nextResult (index : Nat) : Except Exception YamlEvent :=
  match input.provider index with
  | .error failed => .error failed.exception
  | .ok event =>
      if event.kind = .scalar ∧ limits.maximumScalarBytes < event.value.length then
        .error (failure .resourceLimit origin (ascii "$") event.mark
          (ascii "YAML scalar exceeds configured byte limit"))
      else
        .ok event

def next : ParseM YamlEvent := fun state =>
  match nextResult input origin limits state.calls with
  | .ok event => .ok event (state.pulled (.ok event))
  | .error exception => .error exception (state.pulled (.error exception))

def fail {α : Type} (code : YamlErrorCode) (path : Bytes) (mark : SourceMark) (message : String) :
    ParseM α :=
  throw (failure code origin path mark (ascii message))

end PkgsourceYaml
