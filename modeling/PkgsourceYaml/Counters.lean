import PkgsourceYaml.Document
import Mathlib.Algebra.Group.Nat.Defs

/-!
# The reader over machine counters

`parse_node` once more, with the three quantities it increments kept as the source keeps them, in
`std::size_t`. How an increment behaves is a parameter, of which arithmetic modulo a power of two is
one value. The rest is the reader of the document layer.
-/

namespace PkgsourceYaml

/-- What `++state.nodes`, `depth + 1` and `++index` compute. -/
structure Counters where
  nextNodes : Nat → Nat
  nextDepth : Nat → Nat
  nextIndex : Nat → Nat

/-- A `size_t` of `width` bits. -/
def Counters.modulo (width : Nat) : Counters where
  nextNodes nodes := (nodes + 1) % 2 ^ width
  nextDepth depth := (depth + 1) % 2 ^ width
  nextIndex index := (index + 1) % 2 ^ width

/-- Every increment is exact as long as its result is below `size`. -/
structure Counters.ExactBelow (counters : Counters) (size : Nat) : Prop where
  nodes : ∀ n, n + 1 < size → counters.nextNodes n = n + 1
  depth : ∀ n, n + 1 < size → counters.nextDepth n = n + 1
  index : ∀ n, n + 1 < size → counters.nextIndex n = n + 1

theorem Counters.exactBelow_modulo (width : Nat) :
    (Counters.modulo width).ExactBelow (2 ^ width) :=
  ⟨fun _ => Nat.mod_eq_of_lt, fun _ => Nat.mod_eq_of_lt, fun _ => Nat.mod_eq_of_lt⟩

variable (counters : Counters) (input : Input) (origin : SourceOrigin) (limits : ParseLimits)

def accountNodeOver (path : Bytes) (mark : SourceMark) (depth : Nat) : ParseM Unit := do
  if limits.maximumDepth < depth then
    fail origin .resourceLimit path mark "YAML nesting exceeds configured depth limit"
  else if limits.maximumNodes ≤ (← get).nodes then
    fail origin .resourceLimit path mark "YAML node count exceeds configured limit"
  else
    modify fun state => { state with nodes := counters.nextNodes state.nodes }

def admitNodeOver (first : YamlEvent) (path : Bytes) (depth : Nat) : ParseM NodeKind := do
  modify (·.entered depth)
  if first.kind = .alias then
    fail origin .unsupportedFeature path first.mark "YAML aliases are not supported"
  else
    match first.kind.nodeKind? with
    | none => fail origin .invalidDocument path first.mark "expected a YAML value"
    | some kind =>
        if first.anchor ≠ [] then
          fail origin .unsupportedFeature path first.mark "YAML anchors are not supported"
        else if permittedTag kind first.tag = false then
          fail origin .unsupportedFeature path first.mark
            "custom or incompatible YAML tags are not supported"
        else do
          accountNodeOver counters origin limits path first.mark depth
          modify (·.retained (if kind = .scalar then first.value else []))
          pure kind

mutual

def parseNodeOver : Nat → YamlEvent → Bytes → Nat → ParseM Node
  | 0, _, _, _ => throw .fuel
  | fuel + 1, first, path, depth => do
      let kind ← admitNodeOver counters origin limits first path depth
      if kind = .scalar then
        pure ⟨kind, first.mark, first.value, []⟩
      else do
        let children ← parseChildrenOver fuel kind path depth 0
        if kind = .mapping ∧ children.length % 2 ≠ 0 then
          fail origin .syntaxError path first.mark "mapping has an incomplete key/value pair"
        else
          pure ⟨kind, first.mark, [], children⟩

def parseChildrenOver : Nat → NodeKind → Bytes → Nat → Nat → ParseM (List Node)
  | 0, _, _, _, _ => throw .fuel
  | fuel + 1, kind, path, depth, index => do
      let event ← next input origin limits
      if kind.endsWith event.kind = true then
        pure []
      else if event.kind = .streamEnd ∨ event.kind = .documentEnd then
        fail origin .syntaxError path event.mark "unterminated YAML collection"
      else do
        let child ←
          parseNodeOver fuel event (kind.itemPath path index) (counters.nextDepth depth)
        let rest ← parseChildrenOver fuel kind path depth (counters.nextIndex index)
        pure (child :: rest)

end

def outcomeOf {α : Type} : EStateM.Result Exception ParseState α → Except Exception α
  | .ok a _ => .ok a
  | .error exception _ => .error exception

/-- What `parse_node` makes of the root of a document, its first event given and the next call of
the provider being number `index`. -/
def rootOutcome (fuel index : Nat) (first : YamlEvent) : Except Exception Node :=
  outcomeOf (parseNode input origin limits fuel first (ascii "$") 1 { calls := index })

def rootOutcomeOver (fuel index : Nat) (first : YamlEvent) : Except Exception Node :=
  outcomeOf
    (parseNodeOver counters input origin limits fuel first (ascii "$") 1 { calls := index })

/-- Two exceptions that agree in everything but the wording. -/
inductive Reworded : Exception → Exception → Prop where
  | same (exception : Exception) : Reworded exception exception
  | words (code : YamlErrorCode) (path : Bytes) (mark : SourceMark)
      (message message' : Bytes) :
      Reworded (failure code origin path mark message) (failure code origin path mark message')

end PkgsourceYaml
