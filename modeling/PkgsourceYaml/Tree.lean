import PkgsourceYaml.Document
import PkgsourceYaml.Library.Pairing

/-!
# Trees and the events that spell them

The abstract side of the document layer: what a document tree is measured by, the trees of events a
provider can spell out, and the strict subset of them that the parser is meant to accept.
-/

namespace PkgsourceYaml

open Pairing

/-! ### Document trees -/

def Node.nodes : Node → List Node
  | ⟨kind, mark, scalar, children⟩ => ⟨kind, mark, scalar, children⟩ :: all children
where
  all : List Node → List Node
    | [] => []
    | child :: rest => child.nodes ++ all rest

def Node.depth : Node → Nat
  | ⟨_, _, _, children⟩ => 1 + deepest children
where
  deepest : List Node → Nat
    | [] => 0
    | child :: rest => max child.depth (deepest rest)

def Node.nodeCount (node : Node) : Nat := node.nodes.length

def Node.longestScalar (node : Node) : Nat :=
  (node.nodes.map (·.scalar.length)).foldr max 0

def Node.pairs (node : Node) : List (Node × Node) := Pairing.pairs node.children

/-- The shape every node built by the reader has: only collections have children, only scalars have
text, and a mapping has a value for each of its keys. -/
structure Node.Shaped (node : Node) : Prop where
  leaf : node.kind = .scalar → node.children = []
  blank : node.kind ≠ .scalar → node.scalar = []
  paired : node.kind = .mapping → node.children.length % 2 = 0

/-- The keys of a mapping are scalars, none is `<<`, and no two are the same. -/
structure Node.KeysAdmitted (node : Node) : Prop where
  scalar : ∀ pair ∈ node.pairs, pair.1.kind = .scalar
  noMerge : ∀ pair ∈ node.pairs, pair.1.scalar ≠ ascii "<<"
  distinct : (node.pairs.map (·.1.scalar)).Nodup

/-- A document tree as the grammars receive it: every mapping they may come to is a list of pairs
and has admitted keys. -/
inductive Node.Valid : Node → Prop where
  | scalar {mark : SourceMark} {text : Bytes} {children : List Node} :
      Valid ⟨.scalar, mark, text, children⟩
  | sequence {mark : SourceMark} {text : Bytes} {children : List Node}
      (items : ∀ item ∈ children, Valid item) : Valid ⟨.sequence, mark, text, children⟩
  | mapping {mark : SourceMark} {text : Bytes} {children : List Node}
      (paired : children.length % 2 = 0)
      (keys : Node.KeysAdmitted ⟨.mapping, mark, text, children⟩)
      (values : ∀ pair ∈ Pairing.pairs children, Valid pair.2) :
      Valid ⟨.mapping, mark, text, children⟩

theorem Node.nodes_eq (node : Node) :
    node.nodes = node :: node.children.flatMap Node.nodes := by
  obtain ⟨kind, mark, scalar, children⟩ := node
  have hall : ∀ list : List Node, Node.nodes.all list = list.flatMap Node.nodes := by
    intro list
    induction list with
    | nil => rfl
    | cons child rest ih => rw [Node.nodes.all, ih, List.flatMap_cons]
  rw [Node.nodes, hall]

theorem Node.self_mem_nodes (node : Node) : node ∈ node.nodes := by
  rw [Node.nodes_eq]
  exact List.mem_cons_self

theorem Node.forall_nodes_iff {P : Node → Prop} (node : Node) :
    (∀ inner ∈ node.nodes, P inner) ↔
      P node ∧ ∀ child ∈ node.children, ∀ inner ∈ child.nodes, P inner := by
  rw [Node.nodes_eq]
  simp only [List.mem_cons, List.mem_flatMap, forall_eq_or_imp, forall_exists_index, and_imp]
  exact and_congr_right fun _ => ⟨fun h child hchild inner hinner => h inner child hchild hinner,
    fun h inner child hchild hinner => h child hchild inner hinner⟩

theorem Node.deepest_eq (list : List Node) :
    Node.depth.deepest list = (list.map Node.depth).foldr max 0 := by
  induction list with
  | nil => rfl
  | cons child rest ih => rw [Node.depth.deepest, ih, List.map_cons, List.foldr_cons]

theorem Node.depth_eq (node : Node) :
    node.depth = 1 + (node.children.map Node.depth).foldr max 0 := by
  obtain ⟨kind, mark, scalar, children⟩ := node
  rw [Node.depth, Node.deepest_eq]

theorem Node.induction {motive : Node → Prop}
    (step : ∀ node : Node, (∀ child ∈ node.children, motive child) → motive node) (node : Node) :
    motive node := by
  refine @Node.rec motive (fun list => ∀ child ∈ list, motive child) ?_ ?_ ?_ node
  · exact fun kind mark scalar children ih => step ⟨kind, mark, scalar, children⟩ ih
  · exact fun child h => absurd h List.not_mem_nil
  · intro head tail hhead htail child h
    rcases List.mem_cons.mp h with rfl | h
    · exact hhead
    · exact htail child h

theorem Node.mem_nodes_of_child {node child inner : Node} (hchild : child ∈ node.children)
    (hinner : inner ∈ child.nodes) : inner ∈ node.nodes := by
  rw [Node.nodes_eq]
  exact List.mem_cons_of_mem _ (List.mem_flatMap.mpr ⟨child, hchild, hinner⟩)

/-- The nodes of a node of a tree are nodes of the tree. -/
theorem Node.nodes_subset (root : Node) {node inner : Node} (hnode : node ∈ root.nodes)
    (hinner : inner ∈ node.nodes) : inner ∈ root.nodes := by
  induction root using Node.induction with
  | step root ih =>
      rw [Node.nodes_eq, List.mem_cons, List.mem_flatMap] at hnode
      rcases hnode with rfl | ⟨child, hchild, hnode⟩
      · exact hinner
      · exact Node.mem_nodes_of_child hchild (ih child hchild hnode)

theorem Node.child_mem_nodes (root : Node) {node child : Node} (hnode : node ∈ root.nodes)
    (hchild : child ∈ node.children) : child ∈ root.nodes :=
  root.nodes_subset hnode (Node.mem_nodes_of_child hchild child.self_mem_nodes)

theorem Node.pair_mem_nodes (root : Node) {node : Node} {pair : Node × Node}
    (hnode : node ∈ root.nodes) (hpair : pair ∈ node.pairs) :
    pair.1 ∈ root.nodes ∧ pair.2 ∈ root.nodes := by
  have hchildren := mem_of_mem_pairs hpair
  exact ⟨root.child_mem_nodes hnode hchildren.1, root.child_mem_nodes hnode hchildren.2⟩

/-! ### Trees of events -/

/-- The event opens a node of this kind, without excluded features. -/
structure Opens (kind : NodeKind) (first : YamlEvent) : Prop where
  node : first.kind.nodeKind? = some kind
  anchor : first.anchor = []
  tag : permittedTag kind first.tag = true

/-- A tree as a provider spells it: a scalar is one event, a collection is an event that opens it,
its children, and an event that ends it. -/
inductive EventTree where
  | scalar (event : YamlEvent)
  | collection (kind : NodeKind) (first : YamlEvent) (children : List EventTree) (last : YamlEvent)

namespace EventTree

def kind : EventTree → NodeKind
  | .scalar _ => .scalar
  | .collection kind _ _ _ => kind

def first : EventTree → YamlEvent
  | .scalar event => event
  | .collection _ first _ _ => first

def children : EventTree → List EventTree
  | .scalar _ => []
  | .collection _ _ children _ => children

def subtrees : EventTree → List EventTree
  | .scalar event => [.scalar event]
  | .collection kind first children last => .collection kind first children last :: all children
where
  all : List EventTree → List EventTree
    | [] => []
    | child :: rest => child.subtrees ++ all rest

def serialize : EventTree → List YamlEvent
  | .scalar event => [event]
  | .collection _ first children last => first :: all children ++ [last]
where
  all : List EventTree → List YamlEvent
    | [] => []
    | child :: rest => child.serialize ++ all rest

/-- The document tree that keeps kinds, marks and scalar bytes. -/
def toNode : EventTree → Node
  | .scalar event => ⟨.scalar, event.mark, event.value, []⟩
  | .collection kind first children _ => ⟨kind, first.mark, [], all children⟩
where
  all : List EventTree → List Node
    | [] => []
    | child :: rest => child.toNode :: all rest

def depth (tree : EventTree) : Nat := tree.toNode.depth

def Bracketed : EventTree → Prop
  | .scalar event => event.kind = .scalar
  | .collection kind first _ last =>
      (kind = .sequence ∧ first.kind = .sequenceStart ∧ last.kind = .sequenceEnd) ∨
        (kind = .mapping ∧ first.kind = .mappingStart ∧ last.kind = .mappingEnd)

def standardTags : NodeKind → List Bytes
  | .scalar => [ascii "tag:yaml.org,2002:str", ascii "tag:yaml.org,2002:int"]
  | .sequence => [ascii "tag:yaml.org,2002:seq"]
  | .mapping => [ascii "tag:yaml.org,2002:map"]

def Plain (tree : EventTree) : Prop :=
  tree.first.anchor = [] ∧ (tree.first.tag = [] ∨ tree.first.tag ∈ standardTags tree.kind)

/-- One node of a tree of events is spelled by events of its kind, without excluded features, within
the scalar ceiling, and with a value for each key. -/
structure Admitted (limits : ParseLimits) (tree : EventTree) : Prop where
  bracketed : tree.Bracketed
  plain : tree.Plain
  scalar : tree.kind = .scalar → tree.first.value.length ≤ limits.maximumScalarBytes
  paired : tree.kind = .mapping → tree.children.length % 2 = 0

end EventTree

structure DocumentEvents where
  streamStart : YamlEvent
  documentStart : YamlEvent
  root : EventTree
  documentEnd : YamlEvent
  streamEnd : YamlEvent

def DocumentEvents.serialize (document : DocumentEvents) : List YamlEvent :=
  document.streamStart :: document.documentStart ::
    (document.root.serialize ++ [document.documentEnd, document.streamEnd])

/-- A document spelled out in full, without excluded features, within the caller's node, depth and
scalar ceilings. -/
structure SpelledDocument (limits : ParseLimits) (document : DocumentEvents) : Prop where
  streamStart : document.streamStart.kind = .streamStart
  documentStart : document.documentStart.kind = .documentStart
  directives : document.documentStart.hasDirectives = false
  documentEnd : document.documentEnd.kind = .documentEnd
  streamEnd : document.streamEnd.kind = .streamEnd
  bracketed : ∀ tree ∈ document.root.subtrees, tree.Bracketed
  plain : ∀ tree ∈ document.root.subtrees, tree.Plain
  nodes : document.root.subtrees.length ≤ limits.maximumNodes
  depth : document.root.depth ≤ limits.maximumDepth
  scalars : ∀ tree ∈ document.root.subtrees, tree.kind = .scalar →
    tree.first.value.length ≤ limits.maximumScalarBytes
  paired : ∀ tree ∈ document.root.subtrees, tree.kind = .mapping → tree.children.length % 2 = 0

/-- A document of the strict subset: spelled out, and with admitted keys in every mapping. -/
structure StrictDocument (limits : ParseLimits) (document : DocumentEvents) : Prop extends
    SpelledDocument limits document where
  keys : ∀ tree ∈ document.root.subtrees, tree.kind = .mapping → tree.toNode.KeysAdmitted

/-- The provider's calls from `index` on return these events. -/
def Provider.Yields (provider : Provider) : Nat → List YamlEvent → Prop
  | _, [] => True
  | index, event :: rest => provider index = .ok event ∧ Yields provider (index + 1) rest

theorem Provider.yields_append {provider : Provider} {index : Nat} {left right : List YamlEvent} :
    provider.Yields index (left ++ right) ↔
      provider.Yields index left ∧ provider.Yields (index + left.length) right := by
  induction left generalizing index with
  | nil => simp [Provider.Yields]
  | cons event rest ih =>
      have hindex : index + 1 + rest.length = index + (rest.length + 1) := by omega
      simp only [List.cons_append, Provider.Yields, ih, List.length_cons, and_assoc, hindex]

theorem Provider.Yields.exists_call {provider : Provider} {index : Nat} {events : List YamlEvent}
    (h : provider.Yields index events) {event : YamlEvent} (hevent : event ∈ events) :
    ∃ call, provider call = .ok event := by
  induction events generalizing index with
  | nil => exact absurd hevent List.not_mem_nil
  | cons first rest ih =>
      rcases List.mem_cons.mp hevent with rfl | hevent
      · exact ⟨index, h.1⟩
      · exact ih h.2 hevent

theorem Provider.Yields.get {provider : Provider} {index offset : Nat} {events : List YamlEvent}
    (h : provider.Yields index events) (hoffset : offset < events.length) :
    provider (index + offset) = .ok events[offset] := by
  induction events generalizing index offset with
  | nil => exact absurd hoffset (by simp)
  | cons event rest ih =>
      cases offset with
      | zero => exact h.1
      | succ offset =>
          have hrest := ih h.2 (Nat.lt_of_succ_lt_succ hoffset)
          rw [show index + (offset + 1) = index + 1 + offset by omega]
          exact hrest

namespace EventTree

theorem subtrees_collection (kind : NodeKind) (first : YamlEvent) (children : List EventTree)
    (last : YamlEvent) :
    (collection kind first children last).subtrees =
      collection kind first children last :: children.flatMap subtrees := by
  have hall : ∀ list : List EventTree, subtrees.all list = list.flatMap subtrees := by
    intro list
    induction list with
    | nil => rfl
    | cons child rest ih => rw [subtrees.all, ih, List.flatMap_cons]
  rw [subtrees, hall]

theorem serialize_collection (kind : NodeKind) (first : YamlEvent) (children : List EventTree)
    (last : YamlEvent) :
    (collection kind first children last).serialize =
      first :: (children.flatMap serialize ++ [last]) := by
  have hall : ∀ list : List EventTree, serialize.all list = list.flatMap serialize := by
    intro list
    induction list with
    | nil => rfl
    | cons child rest ih => rw [serialize.all, ih, List.flatMap_cons]
  rw [serialize, hall, List.cons_append]

theorem toNode_collection (kind : NodeKind) (first : YamlEvent) (children : List EventTree)
    (last : YamlEvent) :
    (collection kind first children last).toNode =
      ⟨kind, first.mark, [], children.map toNode⟩ := by
  have hall : ∀ list : List EventTree, toNode.all list = list.map toNode := by
    intro list
    induction list with
    | nil => rfl
    | cons child rest ih => rw [toNode.all, ih, List.map_cons]
  rw [toNode, hall]

@[simp] theorem kind_toNode (tree : EventTree) : tree.toNode.kind = tree.kind := by
  cases tree <;> rfl

theorem induction {motive : EventTree → Prop} (scalar : ∀ event, motive (.scalar event))
    (collection : ∀ kind first children last, (∀ child ∈ children, motive child) →
      motive (.collection kind first children last)) (tree : EventTree) : motive tree := by
  refine @EventTree.rec motive (fun list => ∀ child ∈ list, motive child) ?_ ?_ ?_ ?_ tree
  · exact scalar
  · exact fun kind first children last ih => collection kind first children last ih
  · exact fun child h => absurd h List.not_mem_nil
  · intro head tail hhead htail child h
    rcases List.mem_cons.mp h with rfl | h
    · exact hhead
    · exact htail child h

theorem self_mem_subtrees (tree : EventTree) : tree ∈ tree.subtrees := by
  cases tree with
  | scalar event => exact List.mem_singleton.mpr rfl
  | collection kind first children last =>
      rw [subtrees_collection]
      exact List.mem_cons_self

theorem nodes_toNode (tree : EventTree) : tree.toNode.nodes = tree.subtrees.map toNode := by
  induction tree using EventTree.induction with
  | scalar event => rfl
  | collection kind first children last ih =>
      rw [Node.nodes_eq, subtrees_collection, List.map_cons, List.map_flatMap, toNode_collection]
      congr 1
      rw [List.flatMap_map]
      exact List.flatMap_congr fun child hchild => ih child hchild

/-- The first event of the serialization is the event that opens the root. -/
theorem serialize_eq_cons (tree : EventTree) :
    tree.serialize = tree.first :: tree.serialize.tail := by
  cases tree with
  | scalar event => rfl
  | collection kind first children last => rw [serialize_collection]; rfl

/-- The event that opens a node is among the events that spell the tree. -/
theorem first_mem_serialize {tree subtree : EventTree} (h : subtree ∈ tree.subtrees) :
    subtree.first ∈ tree.serialize := by
  have hself : ∀ tree : EventTree, tree.first ∈ tree.serialize := by
    intro tree
    rw [tree.serialize_eq_cons]
    exact List.mem_cons_self
  induction tree using EventTree.induction with
  | scalar event =>
      obtain rfl := List.mem_singleton.mp h
      exact hself _
  | collection kind first children last ih =>
      rw [subtrees_collection, List.mem_cons, List.mem_flatMap] at h
      rcases h with rfl | ⟨child, hchild, h⟩
      · exact hself _
      · rw [serialize_collection]
        exact List.mem_cons_of_mem _ (List.mem_append_left _
          (List.mem_flatMap.mpr ⟨child, hchild, ih child hchild h⟩))

end EventTree

/-! ### Documents written down -/

namespace EventTree

def text (value : String) : EventTree := .scalar { kind := .scalar, value := ascii value }

def items (children : List EventTree) : EventTree :=
  .collection .sequence { kind := .sequenceStart } children { kind := .sequenceEnd }

def fields (pairs : List (String × EventTree)) : EventTree :=
  .collection .mapping { kind := .mappingStart }
    (pairs.flatMap fun pair => [text pair.1, pair.2]) { kind := .mappingEnd }

end EventTree

def DocumentEvents.around (root : EventTree) : DocumentEvents where
  streamStart := { kind := .streamStart }
  documentStart := { kind := .documentStart }
  root := root
  documentEnd := { kind := .documentEnd }
  streamEnd := { kind := .streamEnd }

/-- An input whose provider yields exactly the events of a document. -/
def Input.spelling (byteLength : Nat) (root : EventTree) : Input where
  byteLength := byteLength
  provider index :=
    match (DocumentEvents.around root).serialize[index]? with
    | some event => .ok event
    | none => .error (.logicError (ascii "no more events"))

end PkgsourceYaml
