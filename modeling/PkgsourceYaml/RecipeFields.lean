import PkgsourceYaml.Fields

/-!
# Recipe field decoding

The decoders of `recipe_fields.cpp`, one definition each, in the source's order of checks.
-/

namespace PkgsourceYaml

/-- What `std::from_chars` reports: an error, or a value; and the text it did not consume. -/
structure FromChars where
  error : Bool
  value : Nat
  rest : Bytes
  deriving DecidableEq, Repr

def isDigit (byte : UInt8) : Bool := 48 ≤ byte && byte ≤ 57

def digitsValue (digits : Bytes) : Nat :=
  digits.foldl (fun value digit => 10 * value + (digit.toNat - 48)) 0

/-- `std::from_chars` into a zero-initialised `std::uint64_t`, base ten: it consumes the maximal
prefix of digits, takes no sign and no space, and reports an empty prefix or a value that does not
fit, leaving the target as it was. -/
def fromChars (text : Bytes) : FromChars :=
  let digits := text.takeWhile isDigit
  let rest := text.dropWhile isDigit
  if digits = [] then
    ⟨true, 0, text⟩
  else if UInt64.size ≤ digitsValue digits then
    ⟨true, 0, rest⟩
  else
    ⟨false, digitsValue digits, rest⟩

def posixShellLanguage : Bytes := ascii "posix-shell"

variable (core : Core) (context : Context)

def releaseValue (value : Node) (path : Bytes) : Except Exception UInt32 := do
  let text ← scalarValue context value path
  if text = [] ∨ (1 < text.length ∧ text.head? = some 48) then
    context.fail .invalidValue path value.mark
      (ascii "release must be a canonical positive decimal integer")
  else
    let result := fromChars text
    if result.error = true ∨ result.rest ≠ [] ∨ result.value = 0 ∨
        UInt32.size - 1 < result.value then
      context.fail .invalidValue path value.mark
        (ascii "release must be a canonical positive decimal integer")
    else
      pure (UInt32.ofNat result.value)

def actionValue (text path : Bytes) (value : Node) : Except Exception LifecycleAction :=
  if text = ascii "pre-install" then pure .preInstall
  else if text = ascii "post-install" then pure .postInstall
  else if text = ascii "pre-remove" then pure .preRemove
  else if text = ascii "post-remove" then pure .postRemove
  else
    context.fail .invalidValue path value.mark (ascii "invalid lifecycle action: " ++ text)

/-- Decode one requirement of a sequence: its subject, declared in `scope` at its own location. -/
def requirementValue (scope : core.RequirementScope) (path : Bytes) (entry : Node) :
    Except Exception core.RequirementDeclaration := do
  let subject ← subjectValue core context entry path
  let site ← propagate (provenance core context path entry)
  propagate (core.requirementDeclaration scope subject site)

def requirementSequence (value : Node) (path : Bytes)
    (scope : Except CoreError core.RequirementScope) :
    Except Exception (List core.RequirementDeclaration) := do
  let scope ← propagate scope
  let entries ← sequenceValue context value path
  eachItem path (requirementValue core context scope) entries 0

def architectureSequence (value : Node) (path : Bytes) :
    Except Exception (List core.ArchitectureReference) := do
  let entries ← sequenceValue context value path
  eachItem path (fun itemPath entry => do
    let name ← scalarValue context entry itemPath
    semanticValue context itemPath entry (core.architectureReference name)) entries 0

def programValue (value : Node) (path : Bytes) : Except Exception core.Program := do
  allowKeys context value path [ascii "language", ascii "script"]
  let languageNode ← requiredKey context value (ascii "language") path
  let scriptNode ← requiredKey context value (ascii "script") path
  let languagePath := childPath path (ascii "language")
  let scriptPath := childPath path (ascii "script")
  let language ← scalarValue context languageNode languagePath
  if language ≠ posixShellLanguage then
    context.fail .invalidValue languagePath languageNode.mark
      (ascii "language must be exactly posix-shell")
  else do
    let material ← scalarValue context scriptNode scriptPath
    semanticValue context scriptPath scriptNode (core.program .posixShell material)

def scopeRequirements (value : Node) (key path : Bytes)
    (scope : Except CoreError core.RequirementScope) :
    Except Exception (List core.RequirementDeclaration) := do
  match ← findKey context value key with
  | none => pure []
  | some entries => requirementSequence core context entries (childPath path key) scope

/-- Decode all typed requirement scopes in protocol order. -/
def requirementsValue (value : Node) (path : Bytes) :
    Except Exception (List core.RequirementDeclaration) := do
  allowKeys context value path [ascii "build", ascii "run", ascii "check", ascii "lifecycle"]
  let build ← scopeRequirements core context value (ascii "build") path core.buildScope
  let run ← scopeRequirements core context value (ascii "run") path core.runScope
  let check ← scopeRequirements core context value (ascii "check") path core.checkScope
  let lifecycle ← lifecycleRequirements
  pure (build ++ run ++ check ++ lifecycle)
where
  lifecycleRequirements : Except Exception (List core.RequirementDeclaration) := do
    match ← findKey context value (ascii "lifecycle") with
    | none => pure []
    | some lifecycle => do
        let lifecyclePath := childPath path (ascii "lifecycle")
        let lifecycle ← requireKind context lifecycle .mapping lifecyclePath lifecyclePath
        let groups ← eachPair context lifecycle fun key subjects => do
          let actionPath := childPath lifecyclePath key.scalar
          let action ← actionValue context key.scalar actionPath key
          requirementSequence core context subjects actionPath (core.lifecycleScope action)
        pure groups.flatten

def lifecycleValue (value : Node) (path : Bytes) :
    Except Exception (List core.LifecycleProgram) := do
  let value ← requireKind context value .mapping path path
  eachPair context value fun key programNode => do
    let actionPath := childPath path key.scalar
    let action ← actionValue context key.scalar actionPath key
    let program ← programValue core context programNode actionPath
    propagate (core.lifecycleProgram action program)

def architectureList (value : Node) (key path : Bytes) :
    Except Exception (List core.ArchitectureReference) := do
  match ← findKey context value key with
  | none => pure []
  | some entries => architectureSequence core context entries path

def architecturesValue : Option Node → Except Exception core.ArchitectureRequirements
  | none => propagate (core.architectureRequirements [] [])
  | some value => do
      let path := ascii "architectures"
      allowKeys context value path [ascii "build", ascii "target"]
      let build ← architectureList core context value (ascii "build") (ascii "architectures.build")
      let target ←
        architectureList core context value (ascii "target") (ascii "architectures.target")
      semanticValue context path value (core.architectureRequirements build target)

def unpackValue (entry : Node) (path : Bytes) : Except Exception SourceUnpackKind := do
  match ← findKey context entry (ascii "unpack") with
  | none => pure .none
  | some unpackNode => do
      let unpackPath := childPath path (ascii "unpack")
      let value ← scalarValue context unpackNode unpackPath
      if value ≠ ascii "archive" then
        context.fail .invalidValue unpackPath unpackNode.mark
          (ascii "unsupported source unpack policy")
      else
        pure .archive

def sourceValue (path : Bytes) (entry : Node) : Except Exception core.SourceInput := do
  allowKeys context entry path
    [ascii "url", ascii "path", ascii "name", ascii "unpack", ascii "sha256"]
  let url ← findKey context entry (ascii "url")
  let localPath ← findKey context entry (ascii "path")
  match url, localPath with
  | some url, none => located url (ascii "url") core.remoteSource
  | none, some localPath => located localPath (ascii "path") core.localSource
  | _, _ =>
      context.fail .invalidValue path entry.mark
        (ascii "source must contain exactly one of url or path")
where
  /-- The rest of the entry, once its one locator is known. -/
  located (locatorNode : Node) (key : Bytes)
      (construct : Bytes → Bytes → core.Digest → SourceUnpackKind →
        Except CoreError core.SourceInput) : Except Exception core.SourceInput := do
    let nameNode ← requiredKey context entry (ascii "name") path
    let digestNode ← requiredKey context entry (ascii "sha256") path
    let unpack ← unpackValue context entry path
    let namePath := childPath path (ascii "name")
    let digestPath := childPath path (ascii "sha256")
    let name ← scalarValue context nameNode namePath
    let hash ← scalarValue context digestNode digestPath
    let content ← semanticValue context digestPath digestNode (core.digest .sha256 hash)
    let locator ← scalarValue context locatorNode (childPath path key)
    semanticValue context path entry (construct locator name content unpack)

def sourcesValue (value : Node) (path : Bytes) : Except Exception (List core.SourceInput) := do
  let entries ← sequenceValue context value path
  eachItem path (sourceValue core context) entries 0

def packageReleaseValue (package : Node) : Except Exception core.PackageRelease := do
  let path := ascii "package"
  allowKeys context package path
    [ascii "name", ascii "version", ascii "release", ascii "summary", ascii "description",
      ascii "homepage", ascii "licenses"]
  let nameNode ← requiredKey context package (ascii "name") path
  let versionNode ← requiredKey context package (ascii "version") path
  let releaseNode ← requiredKey context package (ascii "release") path
  let name ← scalarValue context nameNode (ascii "package.name")
  let version ← scalarValue context versionNode (ascii "package.version")
  let release ← releaseValue context releaseNode (ascii "package.release")
  semanticValue context path package (core.packageReleaseOf name version release)

def optionalScalar (package : Node) (key path : Bytes) : Except Exception (Option Bytes) := do
  match ← findKey context package key with
  | none => pure none
  | some value => do
      let text ← scalarValue context value path
      pure (some text)

def packageMetadataValue (package : Node) : Except Exception core.PackageMetadata := do
  let path := ascii "package"
  let summaryNode ← requiredKey context package (ascii "summary") path
  let licensesNode ← requiredKey context package (ascii "licenses") path
  let summary ← scalarValue context summaryNode (ascii "package.summary")
  let description ←
    optionalScalar context package (ascii "description") (ascii "package.description")
  let homepage ← optionalScalar context package (ascii "homepage") (ascii "package.homepage")
  let licenseNodes ← sequenceValue context licensesNode (ascii "package.licenses")
  let licenses ← eachItem (ascii "package.licenses")
    (fun itemPath entry => scalarValue context entry itemPath) licenseNodes 0
  semanticValue context path package (core.packageMetadata summary description homepage licenses)

end PkgsourceYaml
