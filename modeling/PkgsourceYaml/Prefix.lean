import PkgsourceYaml.Scan
import PkgsourceYaml.Tree
import PkgsourceYaml.Library.Runs

/-!
# Beginnings of documents

What the first events of a stream may still become. A beginning is measured against documents, with
no parser in sight; `Progress` is the same seen from the flat scan, whose stack holds the opening
events and finished children of the collections still open.
-/

namespace PkgsourceYaml

open Runs

/-- The events begin, without ending it, a document spelled out within the ceilings. -/
def Begins (limits : ParseLimits) (events : List YamlEvent) : Prop :=
  ∃ document rest, SpelledDocument limits document ∧ rest ≠ [] ∧
    document.serialize = events ++ rest

def ParseLimits.withNodes (limits : ParseLimits) (nodes : Nat) : ParseLimits :=
  { limits with maximumNodes := nodes }

def ParseLimits.withDepth (limits : ParseLimits) (depth : Nat) : ParseLimits :=
  { limits with maximumDepth := depth }

/-- How many of the events open a node. -/
def opened (events : List YamlEvent) : Nat :=
  events.countP (·.kind.nodeKind?.isSome)

/-- How many collections are open, and how deep the deepest node so far stands. -/
structure Descent where
  level : Nat := 0
  deepest : Nat := 0
  deriving DecidableEq, Repr

def Descent.take (descent : Descent) (event : YamlEvent) : Descent :=
  match event.kind with
  | .scalar => { descent with deepest := max descent.deepest (descent.level + 1) }
  | .sequenceStart => ⟨descent.level + 1, max descent.deepest (descent.level + 1)⟩
  | .mappingStart => ⟨descent.level + 1, max descent.deepest (descent.level + 1)⟩
  | .sequenceEnd => { descent with level := descent.level - 1 }
  | .mappingEnd => { descent with level := descent.level - 1 }
  | _ => descent

def descent (events : List YamlEvent) : Descent := events.foldl Descent.take {}

/-- How deep the deepest node stands that the events open; the root stands at depth one. -/
def nesting (events : List YamlEvent) : Nat := (descent events).deepest

/-- The provider yields these events, and then nothing but its own failure. -/
def Input.cut (byteLength : Nat) (events : List YamlEvent) (failed : ProviderFailure) : Input where
  byteLength := byteLength
  provider index :=
    match events[index]? with
    | some event => .ok event
    | none => .error failed

/-! ### The scan as a step relation -/

/-- The scan takes the event, from a state in which it still asks for one. -/
structure ScanStep (origin : SourceOrigin) (limits : ParseLimits) (scan : Scan) (event : YamlEvent)
    (after : Scan) : Prop where
  asks : ∀ root, scan.phase ≠ .done root
  scalar : event.kind = .scalar → event.value.length ≤ limits.maximumScalarBytes
  taken : scanEvent origin limits event scan.nodes scan.phase = .ok after

abbrev Scans (origin : SourceOrigin) (limits : ParseLimits) (start : Scan)
    (events : List YamlEvent) (scan : Scan) : Prop :=
  Run (ScanStep origin limits) start events scan

/-- The phase in which the scan expects the next node above these open collections. -/
def expecting : List Frame → ScanPhase
  | [] => .root
  | top :: below => .inside top below

/-- How many collections are open in a phase. -/
def ScanPhase.height : ScanPhase → Nat
  | .inside _ below => below.length + 1
  | _ => 0

/-! ### Open collections, with their events -/

/-- A collection that is still open: its opening event, and the children finished so far. -/
structure OpenTree where
  kind : NodeKind
  first : YamlEvent
  children : List EventTree

def OpenTree.frame (tree : OpenTree) : Frame :=
  ⟨tree.kind, tree.first.mark, tree.children.map EventTree.toNode⟩

def OpenTree.add (tree : OpenTree) (child : EventTree) : OpenTree :=
  { tree with children := tree.children ++ [child] }

/-- The events of the open collections so far, the innermost collection first in the list. -/
def openEvents : List OpenTree → List YamlEvent
  | [] => []
  | tree :: below =>
      openEvents below ++ tree.first :: tree.children.flatMap EventTree.serialize

/-- A finished tree that stands above `height` open collections. -/
structure Finished (limits : ParseLimits) (height : Nat) (tree : EventTree) : Prop where
  admitted : ∀ subtree ∈ tree.subtrees, subtree.Admitted limits
  depth : height + tree.depth ≤ limits.maximumDepth

structure OpenTree.Admitted (limits : ParseLimits) (height : Nat) (tree : OpenTree) : Prop where
  opens : Opens tree.kind tree.first
  collection : tree.kind ≠ .scalar
  depth : height + 1 ≤ limits.maximumDepth
  children : ∀ child ∈ tree.children, Finished limits (height + 1) child

/-- The open collections of a document, the innermost first. -/
def OpenStack (limits : ParseLimits) : List OpenTree → Prop
  | [] => True
  | tree :: below => tree.Admitted limits below.length ∧ OpenStack limits below

/-- The two events before the root. -/
structure Opening (stream document : YamlEvent) : Prop where
  streamKind : stream.kind = .streamStart
  documentKind : document.kind = .documentStart
  directives : document.hasDirectives = false

/-- The events that lead the scan to a phase, told by what they spell. -/
inductive Progress (limits : ParseLimits) : ScanPhase → List YamlEvent → Prop where
  | streamStart : Progress limits .streamStart []
  | documentStart {stream : YamlEvent} (h : stream.kind = .streamStart) :
      Progress limits .documentStart [stream]
  | node {stream document : YamlEvent} (h : Opening stream document) {stack : List OpenTree}
      (hstack : OpenStack limits stack) :
      Progress limits (expecting (stack.map OpenTree.frame))
        (stream :: document :: openEvents stack)
  | documentEnd {stream document : YamlEvent} (h : Opening stream document) {tree : EventTree}
      (htree : Finished limits 0 tree) :
      Progress limits (.documentEnd tree.toNode) (stream :: document :: tree.serialize)
  | streamEnd {stream document ending : YamlEvent} (h : Opening stream document)
      {tree : EventTree} (htree : Finished limits 0 tree) (hending : ending.kind = .documentEnd) :
      Progress limits (.streamEnd tree.toNode)
        (stream :: document :: tree.serialize ++ [ending])
  | done {document : DocumentEvents} {nodes : Nat}
      (h : SpelledDocument (limits.withNodes nodes) document) :
      Progress limits (.done document.root.toNode) document.serialize

/-- What is reported where a stream ends too early. -/
structure Complaint where
  code : YamlErrorCode
  path : Bytes
  message : Bytes

/-- The beginnings of a document that the stream's end cuts short, and what is reported there: the
category, the path of the innermost collection still open, and the message. -/
inductive CutShort (limits : ParseLimits) : List YamlEvent → Complaint → Prop where
  | beforeStream :
      CutShort limits [] ⟨.syntaxError, ascii "$", ascii "missing YAML stream start"⟩
  | beforeDocument {stream : YamlEvent} (h : stream.kind = .streamStart) :
      CutShort limits [stream]
        ⟨.invalidDocument, ascii "$", ascii "expected one YAML document"⟩
  | beforeRoot {stream document : YamlEvent} (h : Opening stream document) :
      CutShort limits [stream, document]
        ⟨.invalidDocument, ascii "$", ascii "expected a YAML value"⟩
  | inside {stream document : YamlEvent} (h : Opening stream document) {top : OpenTree}
      {below : List OpenTree} (hstack : OpenStack limits (top :: below)) :
      CutShort limits (stream :: document :: openEvents (top :: below))
        ⟨.syntaxError, nextPath (below.map OpenTree.frame),
          ascii "unterminated YAML collection"⟩
  | afterRoot {stream document : YamlEvent} (h : Opening stream document) {tree : EventTree}
      (htree : Finished limits 0 tree) :
      CutShort limits (stream :: document :: tree.serialize)
        ⟨.syntaxError, ascii "$", ascii "expected YAML document end"⟩

end PkgsourceYaml
