import PkgsourceYaml.Reader

/-!
# The bounded document tree

`parse_document` and what it calls: the recursive reader that turns normalized events into a bounded
scalar/sequence/mapping tree, and the pass over the finished tree that admits its mapping keys.
-/

namespace PkgsourceYaml

inductive NodeKind where
  | scalar
  | sequence
  | mapping
  deriving DecidableEq, Repr

structure Node where
  kind : NodeKind
  mark : SourceMark
  scalar : Bytes
  children : List Node

variable (input : Input) (origin : SourceOrigin) (limits : ParseLimits)

def permittedTag (kind : NodeKind) (tag : Bytes) : Bool :=
  if tag = [] then
    true
  else
    match kind with
    | .scalar => tag = ascii "tag:yaml.org,2002:str" || tag = ascii "tag:yaml.org,2002:int"
    | .sequence => tag = ascii "tag:yaml.org,2002:seq"
    | .mapping => tag = ascii "tag:yaml.org,2002:map"

def accountNode (path : Bytes) (mark : SourceMark) (depth : Nat) : ParseM Unit := do
  if limits.maximumDepth < depth then
    fail origin .resourceLimit path mark "YAML nesting exceeds configured depth limit"
  else if limits.maximumNodes ≤ (← get).nodes then
    fail origin .resourceLimit path mark "YAML node count exceeds configured limit"
  else
    modify ParseState.accounted

/-- The node kind an event opens; the `switch` of `parse_node` rejects the others. -/
def YamlEventKind.nodeKind? : YamlEventKind → Option NodeKind
  | .scalar => some .scalar
  | .sequenceStart => some .sequence
  | .mappingStart => some .mapping
  | _ => none

/-- The checks of `parse_node` on the first event of a node, in the source's order, up to the
retention of the node. -/
def admitNode (first : YamlEvent) (path : Bytes) (depth : Nat) : ParseM NodeKind := do
  modify (·.entered depth)
  if first.kind = .alias then
    fail origin .unsupportedFeature path first.mark "YAML aliases are not supported"
  else
    match first.kind.nodeKind? with
    | none => fail origin .invalidDocument path first.mark "expected a YAML value"
    | some kind =>
        if first.anchor ≠ [] then
          fail origin .unsupportedFeature path first.mark "YAML anchors are not supported"
        else if permittedTag kind first.tag = false then
          fail origin .unsupportedFeature path first.mark
            "custom or incompatible YAML tags are not supported"
        else do
          -- rejected features keep their category even under a zero node ceiling
          accountNode origin limits path first.mark depth
          modify (·.retained (if kind = .scalar then first.value else []))
          pure kind

def NodeKind.endsWith : NodeKind → YamlEventKind → Bool
  | .sequence, .sequenceEnd => true
  | .mapping, .mappingEnd => true
  | _, _ => false

/-- The path a child is parsed under: only sequence items extend it. -/
def NodeKind.itemPath (kind : NodeKind) (path : Bytes) (index : Nat) : Bytes :=
  if kind = .sequence then indexed path index else path

mutual

/-- `parse_node`, with a bound on the recursion that `parseFuel` makes large enough. -/
def parseNode : Nat → YamlEvent → Bytes → Nat → ParseM Node
  | 0, _, _, _ => throw .fuel
  | fuel + 1, first, path, depth => do
      let kind ← admitNode origin limits first path depth
      if kind = .scalar then
        pure ⟨kind, first.mark, first.value, []⟩
      else do
        let children ← parseChildren fuel kind path depth 0
        if kind = .mapping ∧ children.length % 2 ≠ 0 then
          fail origin .syntaxError path first.mark "mapping has an incomplete key/value pair"
        else
          pure ⟨kind, first.mark, [], children⟩

/-- The loop of `parse_node` over the children of an open collection, from child `index` on. -/
def parseChildren : Nat → NodeKind → Bytes → Nat → Nat → ParseM (List Node)
  | 0, _, _, _, _ => throw .fuel
  | fuel + 1, kind, path, depth, index => do
      let event ← next input origin limits
      if kind.endsWith event.kind = true then
        pure []
      else if event.kind = .streamEnd ∨ event.kind = .documentEnd then
        fail origin .syntaxError path event.mark "unterminated YAML collection"
      else do
        let child ← parseNode fuel event (kind.itemPath path index) (depth + 1)
        let rest ← parseChildren fuel kind path depth (index + 1)
        pure (child :: rest)

end

/-- Each retained node costs at most two levels of recursion: one to parse it, one to go on to its
next sibling or first child. -/
def parseFuel (limits : ParseLimits) : Nat := 2 * limits.maximumNodes + 1

mutual

/-- Admit the mapping keys of a tree: scalars other than `<<`, each once in its mapping. -/
def validateTree : Node → Bytes → Except Exception Unit
  | ⟨.scalar, _, _, _⟩, _ => pure ()
  | ⟨.sequence, _, _, children⟩, path => validateItems children path 0
  | ⟨.mapping, _, _, children⟩, path => validatePairs children path []

def validateItems : List Node → Bytes → Nat → Except Exception Unit
  | [], _, _ => pure ()
  | item :: rest, path, index => do
      validateTree item (indexed path index)
      validateItems rest path (index + 1)

/-- The loop over the key/value pairs of a mapping, with the set of keys already seen. -/
def validatePairs : List Node → Bytes → List Bytes → Except Exception Unit
  | [], _, _ => pure ()
  | [_], _, _ => throw .outOfRange
  | key :: child :: rest, path, keys =>
      if key.kind ≠ .scalar then
        throw (failure .invalidType origin path key.mark (ascii "mapping keys must be scalars"))
      else if key.scalar = ascii "<<" then
        throw (failure .unsupportedFeature origin path key.mark
          (ascii "YAML merge keys are not supported"))
      else if key.scalar ∈ keys then
        throw (failure .duplicateKey origin (childPath path key.scalar) key.mark
          (ascii "duplicate mapping key: " ++ key.scalar))
      else do
        validateTree child (childPath path key.scalar)
        validatePairs rest path (key.scalar :: keys)

end

def liftExcept {α : Type} : Except Exception α → ParseM α
  | .ok a => pure a
  | .error exception => throw exception

/-- `parse_document` up to `validate_tree`: the byte limit, the stream and document events around
the root, and the root itself. -/
def readTree (fuel : Nat) : ParseM Node := do
  if limits.maximumDocumentBytes < input.byteLength then
    fail origin .resourceLimit (ascii "$") ⟨1, 1⟩ "YAML document exceeds configured byte limit"
  else do
    let event ← next input origin limits
    if event.kind ≠ .streamStart then
      fail origin .syntaxError (ascii "$") event.mark "missing YAML stream start"
    else do
      let event ← next input origin limits
      if event.kind ≠ .documentStart then
        fail origin .invalidDocument (ascii "$") event.mark "expected one YAML document"
      else if event.hasDirectives = true then
        fail origin .unsupportedFeature (ascii "$") event.mark "YAML directives are not supported"
      else do
        let event ← next input origin limits
        if event.kind = .documentEnd then
          fail origin .invalidDocument (ascii "$") event.mark "empty YAML document"
        else do
          let root ← parseNode input origin limits fuel event (ascii "$") 1
          readEnd
          pure root
where
  /-- The two events that must follow the root. -/
  readEnd : ParseM Unit := do
    let event ← next input origin limits
    if event.kind ≠ .documentEnd then
      fail origin .syntaxError (ascii "$") event.mark "expected YAML document end"
    else do
      let event ← next input origin limits
      if event.kind = .documentStart then
        fail origin .invalidDocument (ascii "$") event.mark
          "multiple YAML documents are not supported"
      else if event.kind ≠ .streamEnd then
        fail origin .syntaxError (ascii "$") event.mark "expected YAML stream end"
      else
        pure ()

def parseDocument : ParseM Node := do
  let root ← readTree input origin limits (parseFuel limits)
  liftExcept (validateTree origin root (ascii "$"))
  pure root

def runDocument : EStateM.Result Exception ParseState Node :=
  parseDocument input origin limits {}

def documentOutcome : Except Exception Node :=
  match runDocument input origin limits with
  | .ok root _ => .ok root
  | .error exception _ => .error exception

/-- The state a run ends in, however it ends. -/
def finalState : ParseState :=
  match runDocument input origin limits with
  | .ok _ after => after
  | .error _ after => after

end PkgsourceYaml
