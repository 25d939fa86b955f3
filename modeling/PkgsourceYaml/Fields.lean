import PkgsourceYaml.Core
import PkgsourceYaml.Document

/-!
# Reading fields of the document tree

The part of the document layer that the grammars are written in: key lookup, kind checks, and the
translation of `libpkgsource` failures at one location of the tree.
-/

namespace PkgsourceYaml

/-- What every field reader is given: the origin that labels diagnostics, and whether key/value
reads are checked. The source leaves them unchecked, which is the default; a checked run throws
`misread` where a node that is no mapping is read as a key/value list, or the text of a key that is
no scalar. -/
structure Context where
  origin : SourceOrigin
  checked : Bool := false

variable (core : Core) (context : Context)

def Context.fail {α : Type} (code : YamlErrorCode) (path : Bytes) (mark : SourceMark)
    (message : Bytes) : Except Exception α :=
  throw (failure code context.origin path mark message)

def Context.expect (kind expected : NodeKind) : Except Exception Unit :=
  if context.checked = true ∧ kind ≠ expected then throw .misread else pure ()

def requireKind (value : Node) (expected : NodeKind) (path name : Bytes) : Except Exception Node :=
  if value.kind ≠ expected then
    context.fail .invalidType path value.mark (name ++ ascii " has the wrong YAML type")
  else
    pure value

def findKey (mapping : Node) (key : Bytes) : Except Exception (Option Node) := do
  context.expect mapping.kind .mapping
  search mapping.children
where
  search : List Node → Except Exception (Option Node)
    | [] => pure none
    | [last] => do
        context.expect last.kind .scalar
        if last.scalar = key then throw .outOfRange else pure none
    | candidate :: value :: rest => do
        context.expect candidate.kind .scalar
        if candidate.scalar = key then pure (some value) else search rest

def requiredKey (mapping : Node) (key path : Bytes) : Except Exception Node := do
  match ← findKey context mapping key with
  | some value => pure value
  | none =>
      context.fail .missingKey (childPath path key) mapping.mark
        (ascii "missing required key: " ++ key)

def allowKeys (mapping : Node) (path : Bytes) (allowed : List Bytes) : Except Exception Unit := do
  let mapping ← requireKind context mapping .mapping path path
  context.expect mapping.kind .mapping
  check mapping.children
where
  checkKey (key : Node) : Except Exception Unit := do
    context.expect key.kind .scalar
    if key.scalar ∉ allowed then
      context.fail .unknownKey (childPath path key.scalar) key.mark
        (ascii "unknown key: " ++ key.scalar)
    else
      pure ()
  check : List Node → Except Exception Unit
    | [] => pure ()
    | [last] => checkKey last
    | key :: _ :: rest => do
        checkKey key
        check rest

def scalarValue (value : Node) (path : Bytes) : Except Exception Bytes := do
  let value ← requireKind context value .scalar path path
  pure value.scalar

def sequenceValue (value : Node) (path : Bytes) : Except Exception (List Node) := do
  let value ← requireKind context value .sequence path path
  pure value.children

def provenance (path : Bytes) (value : Node) : Except CoreError core.DeclarationProvenance :=
  core.declarationProvenance context.origin.document path value.mark.line value.mark.column

/-- Construct one libpkgsource value and translate only owner validation errors. -/
def semanticValue {α : Type} (path : Bytes) (value : Node) (function : Except CoreError α) :
    Except Exception α :=
  match function with
  | .ok a => pure a
  | .error failed => context.fail .invalidValue path value.mark failed.what

def subjectValue (value : Node) (path : Bytes) : Except Exception core.RequirementSubject := do
  allowKeys context value path [ascii "package", ascii "profile"]
  let package ← findKey context value (ascii "package")
  let profile ← findKey context value (ascii "profile")
  match package, profile with
  | some package, none => do
      let packagePath := childPath path (ascii "package")
      let name ← scalarValue context package packagePath
      semanticValue context packagePath package (core.packageSubjectOf name)
  | none, some profile => do
      let profilePath := childPath path (ascii "profile")
      let name ← scalarValue context profile profilePath
      semanticValue context profilePath profile (core.profileSubjectOf name)
  | _, _ =>
      context.fail .invalidValue path value.mark
        (ascii "requirement subject must contain exactly one of package or profile")

def requireFormat (root : Node) (expected : Bytes) : Except Exception Unit := do
  let format ← requiredKey context root (ascii "format") (ascii "$")
  let text ← scalarValue context format (ascii "format")
  if text ≠ expected then
    context.fail .invalidValue (ascii "format") format.mark
      (ascii "unsupported document format; expected " ++ expected)
  else
    pure ()

/-- The loop the decoders run over the entries of a sequence: each entry is decoded under the path
of its index, and the results are kept in order. -/
def eachItem {α : Type} (path : Bytes) (decode : Bytes → Node → Except Exception α) :
    List Node → Nat → Except Exception (List α)
  | [], _ => pure []
  | entry :: rest, index => do
      let value ← decode (indexed path index) entry
      let values ← eachItem path decode rest (index + 1)
      pure (value :: values)

/-- The loop the decoders run over the key/value pairs of a mapping whose keys are not fixed. -/
def eachPair {α : Type} (mapping : Node) (decode : Node → Node → Except Exception α) :
    Except Exception (List α) := do
  context.expect mapping.kind .mapping
  loop mapping.children
where
  loop : List Node → Except Exception (List α)
    | [] => pure []
    | [_] => throw .outOfRange
    | key :: value :: rest => do
        context.expect key.kind .scalar
        let decoded ← decode key value
        let others ← loop rest
        pure (decoded :: others)

end PkgsourceYaml
