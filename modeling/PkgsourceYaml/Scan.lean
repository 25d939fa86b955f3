import PkgsourceYaml.Document

/-!
# The flat pushdown scan

What the recursive reader is meant to compute, said without recursion: one pass over the events that
keeps a stack of the collections still open and a count of the nodes admitted so far. Depths and
paths are read off the stack.
-/

namespace PkgsourceYaml

/-- A collection that is still open: its kind, the mark of the event that opened it, and the
children completed so far, in document order. -/
structure Frame where
  kind : NodeKind
  mark : SourceMark
  completed : List Node

/-- The path of the node that comes next, above the open collections. -/
def nextPath : List Frame → Bytes
  | [] => ascii "$"
  | frame :: below => frame.kind.itemPath (nextPath below) frame.completed.length

inductive ScanPhase where
  | streamStart
  | documentStart
  | root
  | inside (top : Frame) (below : List Frame)
  | documentEnd (root : Node)
  | streamEnd (root : Node)
  | done (root : Node)

structure Scan where
  phase : ScanPhase := .streamStart
  nodes : Nat := 0

def Frame.add (frame : Frame) (node : Node) : Frame :=
  { frame with completed := frame.completed ++ [node] }

/-- Where the scan goes on once a node is complete. -/
def completeNode (node : Node) : List Frame → ScanPhase
  | [] => .documentEnd node
  | frame :: below => .inside (frame.add node) below

variable (origin : SourceOrigin) (limits : ParseLimits)

def scanFail {α : Type} (code : YamlErrorCode) (path : Bytes) (mark : SourceMark)
    (message : String) : Except Exception α :=
  throw (failure code origin path mark (ascii message))

/-- An event where a node is expected. -/
def scanNode (stack : List Frame) (nodes : Nat) (event : YamlEvent) : Except Exception Scan :=
  if event.kind = .alias then
    scanFail origin .unsupportedFeature (nextPath stack) event.mark "YAML aliases are not supported"
  else
    match event.kind.nodeKind? with
    | none => scanFail origin .invalidDocument (nextPath stack) event.mark "expected a YAML value"
    | some kind =>
        if event.anchor ≠ [] then
          scanFail origin .unsupportedFeature (nextPath stack) event.mark
            "YAML anchors are not supported"
        else if permittedTag kind event.tag = false then
          scanFail origin .unsupportedFeature (nextPath stack) event.mark
            "custom or incompatible YAML tags are not supported"
        else if limits.maximumDepth < stack.length + 1 then
          scanFail origin .resourceLimit (nextPath stack) event.mark
            "YAML nesting exceeds configured depth limit"
        else if limits.maximumNodes ≤ nodes then
          scanFail origin .resourceLimit (nextPath stack) event.mark
            "YAML node count exceeds configured limit"
        else if kind = .scalar then
          pure ⟨completeNode ⟨kind, event.mark, event.value, []⟩ stack, nodes + 1⟩
        else
          pure ⟨.inside ⟨kind, event.mark, []⟩ stack, nodes + 1⟩

/-- An event that ends the innermost open collection. -/
def closeFrame (top : Frame) (below : List Frame) : Except Exception ScanPhase :=
  if top.kind = .mapping ∧ top.completed.length % 2 ≠ 0 then
    scanFail origin .syntaxError (nextPath below) top.mark
      "mapping has an incomplete key/value pair"
  else
    pure (completeNode ⟨top.kind, top.mark, [], top.completed⟩ below)

def scanEvent (event : YamlEvent) (nodes : Nat) : ScanPhase → Except Exception Scan
  | .streamStart =>
      if event.kind ≠ .streamStart then
        scanFail origin .syntaxError (ascii "$") event.mark "missing YAML stream start"
      else
        pure ⟨.documentStart, nodes⟩
  | .documentStart =>
      if event.kind ≠ .documentStart then
        scanFail origin .invalidDocument (ascii "$") event.mark "expected one YAML document"
      else if event.hasDirectives = true then
        scanFail origin .unsupportedFeature (ascii "$") event.mark
          "YAML directives are not supported"
      else
        pure ⟨.root, nodes⟩
  | .root =>
      if event.kind = .documentEnd then
        scanFail origin .invalidDocument (ascii "$") event.mark "empty YAML document"
      else
        scanNode origin limits [] nodes event
  | .inside top below =>
      if top.kind.endsWith event.kind = true then do
        let phase ← closeFrame origin top below
        pure ⟨phase, nodes⟩
      else if event.kind = .streamEnd ∨ event.kind = .documentEnd then
        scanFail origin .syntaxError (nextPath below) event.mark "unterminated YAML collection"
      else
        scanNode origin limits (top :: below) nodes event
  | .documentEnd root =>
      if event.kind ≠ .documentEnd then
        scanFail origin .syntaxError (ascii "$") event.mark "expected YAML document end"
      else
        pure ⟨.streamEnd root, nodes⟩
  | .streamEnd root =>
      if event.kind = .documentStart then
        scanFail origin .invalidDocument (ascii "$") event.mark
          "multiple YAML documents are not supported"
      else if event.kind ≠ .streamEnd then
        scanFail origin .syntaxError (ascii "$") event.mark "expected YAML stream end"
      else
        pure ⟨.done root, nodes⟩
  | .done root => pure ⟨.done root, nodes⟩

variable (input : Input)

/-- The pass over the results of `next()` from call `index` on, for as many events as `budget`. -/
def scanFrom : Nat → Nat → Scan → Except Exception Node
  | _, _, ⟨.done root, _⟩ => pure root
  | 0, _, _ => throw .fuel
  | budget + 1, index, scan => do
      let event ← nextResult input origin limits index
      let scan ← scanEvent origin limits event scan.nodes scan.phase
      scanFrom budget (index + 1) scan

def scanDocument (budget : Nat) : Except Exception Node :=
  if limits.maximumDocumentBytes < input.byteLength then
    scanFail origin .resourceLimit (ascii "$") ⟨1, 1⟩ "YAML document exceeds configured byte limit"
  else
    scanFrom origin limits input budget 0 {}

/-- Each admitted node costs at most two events, one to open it and one to end it. -/
def scanBudget : Nat := 2 * limits.maximumNodes + 4

/-- The outcome of `parse_document` up to `validate_tree`. -/
def treeOutcome : Except Exception Node :=
  match readTree input origin limits (parseFuel limits) {} with
  | .ok root _ => .ok root
  | .error exception _ => .error exception

end PkgsourceYaml
