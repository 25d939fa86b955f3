import PkgsourceYaml.Bytes

/-!
# Failures, limits and locations

The public vocabulary of `parser.h`, and the exceptions a run of the parser can end with.
-/

namespace PkgsourceYaml

inductive YamlErrorCode where
  | syntaxError
  | unsupportedFeature
  | invalidDocument
  | duplicateKey
  | unknownKey
  | missingKey
  | invalidType
  | invalidValue
  | resourceLimit
  deriving DecidableEq, Repr

structure SourceMark where
  line : UInt32
  column : UInt32
  deriving DecidableEq, Repr

def SourceMark.OneBased (mark : SourceMark) : Prop := 1 ≤ mark.line ∧ 1 ≤ mark.column

/-- The caller's `pkgsource::source_origin`, of which the parser reads the document label. -/
structure SourceOrigin where
  document : Bytes
  deriving DecidableEq, Repr

structure ParseLimits where
  maximumDocumentBytes : Nat := 1024 * 1024
  maximumScalarBytes : Nat := 256 * 1024
  maximumNodes : Nat := 65536
  maximumDepth : Nat := 64
  deriving DecidableEq, Repr

/-- Every ceiling of the left limits is at most that of the right ones. -/
structure ParseLimits.Below (limits wider : ParseLimits) : Prop where
  documentBytes : limits.maximumDocumentBytes ≤ wider.maximumDocumentBytes
  scalarBytes : limits.maximumScalarBytes ≤ wider.maximumScalarBytes
  nodes : limits.maximumNodes ≤ wider.maximumNodes
  depth : limits.maximumDepth ≤ wider.maximumDepth

structure YamlError where
  code : YamlErrorCode
  document : Bytes
  path : Bytes
  mark : SourceMark
  message : Bytes
  deriving DecidableEq, Repr

structure CoreError where
  what : Bytes
  deriving DecidableEq, Repr

/-- What can end a run early. The last three constructors are no C++ exceptions: `outOfRange` marks
a read outside `node::children`, `misread` a key/value read whose precondition does not hold (raised
only by a checked `Context`), and `fuel` that the model's recursion bound ran out. -/
inductive Exception where
  | yaml (error : YamlError)
  | core (failure : CoreError)
  | badAlloc
  | logicError (what : Bytes)
  | outOfRange
  | misread
  | fuel
  deriving DecidableEq, Repr

/-- The exception of `fail`: a structured parser failure at one normalized source location. -/
def failure (code : YamlErrorCode) (origin : SourceOrigin) (path : Bytes) (mark : SourceMark)
    (message : Bytes) : Exception :=
  .yaml ⟨code, origin.document, path, mark, message⟩

def Exception.IsYaml (exception : Exception) : Prop :=
  ∃ error, exception = .yaml error

def Exception.IsResourceLimit (exception : Exception) : Prop :=
  ∃ error, exception = .yaml error ∧ error.code = .resourceLimit

theorem isYaml_failure (code : YamlErrorCode) (origin : SourceOrigin) (path : Bytes)
    (mark : SourceMark) (message : Bytes) :
    (failure code origin path mark message).IsYaml :=
  ⟨_, rfl⟩

theorem isResourceLimit_failure (origin : SourceOrigin) (path : Bytes) (mark : SourceMark)
    (message : Bytes) :
    (failure .resourceLimit origin path mark message).IsResourceLimit :=
  ⟨_, rfl, rfl⟩

end PkgsourceYaml
