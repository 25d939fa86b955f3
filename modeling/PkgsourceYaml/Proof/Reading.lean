import PkgsourceYaml.Proof.Steps

/-!
# The recursive reader reads exactly one tree

Both directions of one fact: what `parse_node` returns is the tree that the events it pulled spell
out, and on the events of any admissible tree it returns that tree.
-/

namespace PkgsourceYaml

open Throwing

variable {input : Input} {origin : SourceOrigin} {limits : ParseLimits}

/-- The reader went over a tree opened at `depth`: its first event was already pulled, the rest are
the next calls, and each of its nodes was accounted. -/
structure ReadsTree (input : Input) (limits : ParseLimits) (depth : Nat) (tree : EventTree)
    (state after : ParseState) : Prop where
  admitted : ∀ subtree ∈ tree.subtrees, subtree.Admitted limits
  depth : depth + tree.depth ≤ limits.maximumDepth + 1
  yields : input.provider.Yields state.calls tree.serialize.tail
  calls : after.calls = state.calls + tree.serialize.tail.length
  nodes : after.nodes = state.nodes + tree.subtrees.length
  bound : after.nodes ≤ limits.maximumNodes

/-- The reader went over the children of a collection open at `depth`, and the event that ends it.
-/
structure ReadsForest (input : Input) (limits : ParseLimits) (depth : Nat)
    (trees : List EventTree) (last : YamlEvent) (state after : ParseState) : Prop where
  admitted : ∀ subtree ∈ trees.flatMap EventTree.subtrees, subtree.Admitted limits
  depth : ∀ tree ∈ trees, depth + 1 + tree.depth ≤ limits.maximumDepth + 1
  yields : input.provider.Yields state.calls (trees.flatMap EventTree.serialize ++ [last])
  calls : after.calls = state.calls + (trees.flatMap EventTree.serialize ++ [last]).length
  nodes : after.nodes = state.nodes + (trees.flatMap EventTree.subtrees).length
  bound : after.nodes ≤ limits.maximumNodes

theorem permittedTag_iff {kind : NodeKind} {tag : Bytes} :
    permittedTag kind tag = true ↔ tag = [] ∨ tag ∈ EventTree.standardTags kind := by
  unfold permittedTag
  by_cases htag : tag = []
  · simp [htag]
  · cases kind <;> simp [htag, EventTree.standardTags]

theorem nodeKind?_eq_some_scalar {kind : YamlEventKind} :
    kind.nodeKind? = some .scalar ↔ kind = .scalar := by
  cases kind <;> simp [YamlEventKind.nodeKind?]

/-- A clean opening event and the end event of the same kind bracket a collection. -/
theorem bracketed_collection {kind : NodeKind} {first last : YamlEvent}
    {children : List EventTree} (hopens : first.kind.nodeKind? = some kind)
    (hends : kind.endsWith last.kind = true) :
    (EventTree.collection kind first children last).Bracketed := by
  cases kind with
  | scalar => simp [NodeKind.endsWith] at hends
  | sequence =>
      refine Or.inl ⟨rfl, ?_, ?_⟩
      · cases hfirst : first.kind <;> simp_all [YamlEventKind.nodeKind?]
      · cases hlast : last.kind <;> simp_all [NodeKind.endsWith]
  | mapping =>
      refine Or.inr ⟨rfl, ?_, ?_⟩
      · cases hfirst : first.kind <;> simp_all [YamlEventKind.nodeKind?]
      · cases hlast : last.kind <;> simp_all [NodeKind.endsWith]

theorem depth_collection (kind : NodeKind) (first last : YamlEvent) (children : List EventTree) :
    (EventTree.collection kind first children last).depth =
      1 + (children.map EventTree.depth).foldr max 0 := by
  rw [EventTree.depth, EventTree.toNode_collection, Node.depth_eq, List.map_map]
  rfl

theorem depth_collection_le {kind : NodeKind} {first last : YamlEvent} {children : List EventTree}
    {bound : Nat} (hchildren : ∀ child ∈ children, child.depth + 1 ≤ bound) (hbound : 1 ≤ bound) :
    (EventTree.collection kind first children last).depth ≤ bound := by
  rw [depth_collection]
  have hfold : (children.map EventTree.depth).foldr max 0 + 1 ≤ bound := by
    induction children with
    | nil => simpa using hbound
    | cons child rest ih =>
        have hchild := hchildren child List.mem_cons_self
        have hrest := ih fun other hother => hchildren other (List.mem_cons_of_mem child hother)
        rw [List.map_cons, List.foldr_cons]
        omega
  omega

theorem depth_lt_collection (kind : NodeKind) (first last : YamlEvent) {children : List EventTree}
    {child : EventTree} (h : child ∈ children) :
    child.depth < (EventTree.collection kind first children last).depth := by
  rw [depth_collection]
  have hfold : child.depth ≤ (children.map EventTree.depth).foldr max 0 := by
    induction children with
    | nil => exact absurd h List.not_mem_nil
    | cons other rest ih =>
        rw [List.map_cons, List.foldr_cons]
        rcases List.mem_cons.mp h with rfl | h
        · exact Nat.le_max_left _ _
        · exact Nat.le_trans (ih h) (Nat.le_max_right _ _)
  omega

theorem one_le_depth (tree : EventTree) : 1 ≤ tree.depth := by
  rw [EventTree.depth, Node.depth_eq]
  omega

theorem length_subtrees_pos (tree : EventTree) : 0 < tree.subtrees.length := by
  cases tree with
  | scalar event => simp [EventTree.subtrees]
  | collection kind first children last => simp [EventTree.subtrees_collection]

/-! ### What was read is a tree -/

theorem ReadsForest.nil {depth : Nat} {last : YamlEvent} {state : ParseState}
    (hprovider : input.provider state.calls = .ok last)
    (hbound : state.nodes ≤ limits.maximumNodes) :
    ReadsForest input limits depth [] last state (state.pulled (.ok last)) :=
  ⟨fun _ h => absurd h List.not_mem_nil, fun _ h => absurd h List.not_mem_nil,
    ⟨hprovider, trivial⟩, rfl, rfl, hbound⟩

theorem ReadsForest.cons {depth : Nat} {tree : EventTree} {trees : List EventTree}
    {last : YamlEvent} {state middle after : ParseState}
    (hprovider : input.provider state.calls = .ok tree.first)
    (htree : ReadsTree input limits (depth + 1) tree (state.pulled (.ok tree.first)) middle)
    (hforest : ReadsForest input limits depth trees last middle after) :
    ReadsForest input limits depth (tree :: trees) last state after := by
  have hserialize : tree.serialize.length = tree.serialize.tail.length + 1 := by
    rw [tree.serialize_eq_cons]
    rfl
  have hmiddle : middle.calls = state.calls + tree.serialize.length := by
    rw [htree.calls, ParseState.calls_pulled, hserialize]
    omega
  refine ⟨?_, ?_, ?_, ?_, ?_, hforest.bound⟩
  · intro subtree hsubtree
    rw [List.flatMap_cons, List.mem_append] at hsubtree
    exact hsubtree.elim (htree.admitted subtree) (hforest.admitted subtree)
  · intro other hother
    rcases List.mem_cons.mp hother with rfl | hother
    · exact htree.depth
    · exact hforest.depth other hother
  · rw [List.flatMap_cons, List.append_assoc, Provider.yields_append, ← hmiddle]
    refine ⟨?_, hforest.yields⟩
    rw [tree.serialize_eq_cons]
    exact ⟨hprovider, htree.yields⟩
  · rw [hforest.calls, hmiddle, List.flatMap_cons, List.append_assoc]
    simp only [List.length_append]
    omega
  · rw [hforest.nodes, htree.nodes, ParseState.nodes_pulled, List.flatMap_cons,
      List.length_append]
    exact Nat.add_assoc _ _ _

theorem ReadsForest.close {depth : Nat} {kind : NodeKind} {first last : YamlEvent}
    {trees : List EventTree} {scalar : Bytes} {state after : ParseState}
    (hopens : Opens kind first) (hkind : kind ≠ .scalar) (hends : kind.endsWith last.kind = true)
    (hpaired : kind = .mapping → trees.length % 2 = 0) (hdepth : depth ≤ limits.maximumDepth)
    (h : ReadsForest input limits depth trees last (state.admitted depth scalar) after) :
    ReadsTree input limits depth (.collection kind first trees last) state after := by
  refine ⟨?_, ?_, ?_, ?_, ?_, h.bound⟩
  · intro subtree hsubtree
    rw [EventTree.subtrees_collection, List.mem_cons] at hsubtree
    rcases hsubtree with rfl | hsubtree
    · exact ⟨bracketed_collection hopens.node hends,
        ⟨hopens.anchor, permittedTag_iff.mp hopens.tag⟩, fun hscalar => absurd hscalar hkind,
        hpaired⟩
    · exact h.admitted subtree hsubtree
  · have hbound : (EventTree.collection kind first trees last).depth ≤
        limits.maximumDepth + 1 - depth := by
      refine depth_collection_le (fun child hchild => ?_) (by omega)
      have hchildDepth := h.depth child hchild
      omega
    omega
  · rw [EventTree.serialize_collection, List.tail_cons]
    exact h.yields
  · rw [EventTree.serialize_collection, List.tail_cons]
    exact h.calls
  · rw [EventTree.subtrees_collection, List.length_cons, h.nodes, ParseState.nodes_admitted]
    omega

/-- The reader never returns anything but a tree that the events it pulled spell out. -/
theorem parse_sound :
    (∀ fuel first path depth, ∀ state : ParseState,
      (first.kind = .scalar → first.value.length ≤ limits.maximumScalarBytes) →
      Meets (parseNode input origin limits fuel first path depth) state
        (fun node after => ∃ tree : EventTree, tree.first = first ∧ tree.toNode = node ∧
          ReadsTree input limits depth tree state after)
        (fun _ _ => True)) ∧
    ∀ fuel kind path depth index, ∀ state : ParseState, state.nodes ≤ limits.maximumNodes →
      Meets (parseChildren input origin limits fuel kind path depth index) state
        (fun nodes after => ∃ (trees : List EventTree) (last : YamlEvent),
          trees.map EventTree.toNode = nodes ∧ kind.endsWith last.kind = true ∧
          ReadsForest input limits depth trees last state after)
        (fun _ _ => True) := by
  apply parseNode.mutual_induct
  · intro first path depth state _
    exact Meets.throw trivial
  · intro fuel first path depth ih state hfirst
    rw [Nat.succ_eq_add_one, parseNode]
    refine Meets.bind (meets_admitNode (fun kind hopens hdepth hnodes => ?_) fun _ _ _ => trivial)
    refine Meets.ite (fun hscalar => ?_) fun hcollection => ?_
    · subst hscalar
      have hkind := nodeKind?_eq_some_scalar.mp hopens.node
      refine Meets.pure ⟨.scalar first, rfl, rfl, ?_, ?_, trivial, ?_, ?_, hnodes⟩
      · intro subtree hsubtree
        obtain rfl := List.mem_singleton.mp hsubtree
        exact ⟨hkind, ⟨hopens.anchor, permittedTag_iff.mp hopens.tag⟩, fun _ => hfirst hkind,
          fun hmapping => absurd hmapping (by simp [EventTree.kind])⟩
      · simp only [EventTree.depth, EventTree.toNode, Node.depth_eq]
        simp only [List.map_nil, List.foldr_nil]
        omega
      · simp [EventTree.serialize]
      · simp [EventTree.subtrees]
    · refine Meets.bind (Meets.mono (ih kind _ hnodes) (fun children after _ hforest => ?_)
        fun _ _ _ _ => trivial)
      obtain ⟨trees, last, htrees, hends, hforest⟩ := hforest
      apply Meets.ite (fun _ => Meets.throw trivial)
      intro hodd
      have hpaired : kind = .mapping → trees.length % 2 = 0 := by
        intro hmapping
        have heven : children.length % 2 = 0 := by
          by_contra hne
          exact hodd ⟨hmapping, hne⟩
        rwa [← htrees, List.length_map] at heven
      refine Meets.pure ⟨.collection kind first trees last, rfl, ?_,
        hforest.close hopens hcollection hends hpaired hdepth⟩
      rw [EventTree.toNode_collection, htrees]
  · intro kind path depth index state _
    exact Meets.throw trivial
  · intro fuel kind path depth index ihNode ihRest state hnodes
    rw [Nat.succ_eq_add_one, parseChildren]
    refine Meets.bind (meets_next (fun event hevent => ?_) fun _ _ => trivial)
    obtain ⟨hprovider, hscalar⟩ := nextResult_eq_ok_iff.mp hevent
    refine Meets.ite (fun hends => ?_) fun _ => ?_
    · exact Meets.pure ⟨[], event, rfl, hends, .nil hprovider hnodes⟩
    · apply Meets.ite (fun _ => Meets.throw trivial)
      intro _
      refine Meets.bind (Meets.mono (ihNode event _ hscalar) (fun child middle _ hchild => ?_)
        fun _ _ _ _ => trivial)
      obtain ⟨tree, hfirst, htree, hreads⟩ := hchild
      refine Meets.bind (Meets.mono (ihRest middle hreads.bound) (fun rest after _ hrest => ?_)
        fun _ _ _ _ => trivial)
      obtain ⟨trees, last, htrees, hends, hforest⟩ := hrest
      subst hfirst
      refine Meets.pure ⟨tree :: trees, last, ?_, hends, hforest.cons hprovider hreads⟩
      rw [List.map_cons, htree, htrees]

theorem parseNode_sound {fuel depth : Nat} {first : YamlEvent} {path : Bytes} {state : ParseState}
    (hfirst : first.kind = .scalar → first.value.length ≤ limits.maximumScalarBytes) :
    Meets (parseNode input origin limits fuel first path depth) state
      (fun node after => ∃ tree : EventTree, tree.first = first ∧ tree.toNode = node ∧
        ReadsTree input limits depth tree state after)
      (fun _ _ => True) :=
  parse_sound.1 fuel first path depth state hfirst

/-! ### A tree is read

The same tree, now given: on its events, within the ceilings and with two levels of recursion for
each node, the reader throws nothing and returns the tree. -/

/-- What the reader is given to read a tree whose first event was pulled at `depth`. -/
structure CanRead (input : Input) (limits : ParseLimits) (depth : Nat) (tree : EventTree)
    (state : ParseState) : Prop where
  admitted : ∀ subtree ∈ tree.subtrees, subtree.Admitted limits
  depth : depth + tree.depth ≤ limits.maximumDepth + 1
  yields : input.provider.Yields state.calls tree.serialize.tail
  bound : state.nodes + tree.subtrees.length ≤ limits.maximumNodes

def Returns (tree : EventTree) (state : ParseState) (node : Node) (after : ParseState) : Prop :=
  node = tree.toNode ∧ after.calls = state.calls + tree.serialize.tail.length ∧
    after.nodes = state.nodes + tree.subtrees.length

theorem opens_of_admitted {kind : NodeKind} {first last : YamlEvent} {children : List EventTree}
    (h : (EventTree.collection kind first children last).Admitted limits) :
    Opens kind first ∧ kind ≠ .scalar ∧ kind.endsWith last.kind = true := by
  have hplain := h.plain
  rcases h.bracketed with ⟨rfl, hfirst, hlast⟩ | ⟨rfl, hfirst, hlast⟩
  · exact ⟨⟨by rw [hfirst]; rfl, hplain.1, permittedTag_iff.mpr hplain.2⟩, by decide,
      by rw [hlast]; rfl⟩
  · exact ⟨⟨by rw [hfirst]; rfl, hplain.1, permittedTag_iff.mpr hplain.2⟩, by decide,
      by rw [hlast]; rfl⟩

/-- An event that opens a node ends no collection, and not the document or the stream either. -/
theorem ends_nothing_of_node {found : NodeKind} {event : YamlEvent}
    (h : event.kind.nodeKind? = some found) (kind : NodeKind) :
    ¬kind.endsWith event.kind = true ∧ ¬(event.kind = .streamEnd ∨ event.kind = .documentEnd) := by
  cases hkind : event.kind <;> rw [hkind] at h <;> cases h <;> cases kind <;>
    simp [NodeKind.endsWith]

theorem first_of_admitted {tree : EventTree} (h : tree.Admitted limits) (kind : NodeKind) :
    ¬kind.endsWith tree.first.kind = true ∧
      ¬(tree.first.kind = .streamEnd ∨ tree.first.kind = .documentEnd) := by
  cases tree with
  | scalar event => exact ends_nothing_of_node (nodeKind?_eq_some_scalar.mpr h.bracketed) kind
  | collection found first children last =>
      exact ends_nothing_of_node (opens_of_admitted h).1.node kind

theorem scalar_of_admitted {tree : EventTree} (h : tree.Admitted limits) :
    tree.first.kind = .scalar → tree.first.value.length ≤ limits.maximumScalarBytes := by
  cases tree with
  | scalar event => exact fun _ => h.scalar rfl
  | collection kind first children last =>
      intro hkind
      rcases h.bracketed with ⟨-, hfirst, -⟩ | ⟨-, hfirst, -⟩
      · exact absurd (hkind.symm.trans hfirst) (by decide)
      · exact absurd (hkind.symm.trans hfirst) (by decide)

theorem CanRead.reads {depth : Nat} {tree : EventTree} {state after : ParseState} {node : Node}
    (h : CanRead input limits depth tree state) (hreturns : Returns tree state node after) :
    ReadsTree input limits depth tree state after := by
  obtain ⟨-, hcalls, hnodes⟩ := hreturns
  refine ⟨h.admitted, h.depth, h.yields, hcalls, hnodes, ?_⟩
  rw [hnodes]
  exact h.bound

/-- What the reader is given to read the children of a collection open at `depth`. -/
structure CanReadForest (input : Input) (limits : ParseLimits) (depth : Nat)
    (trees : List EventTree) (last : YamlEvent) (state : ParseState) : Prop where
  admitted : ∀ subtree ∈ trees.flatMap EventTree.subtrees, subtree.Admitted limits
  depth : ∀ tree ∈ trees, depth + 1 + tree.depth ≤ limits.maximumDepth + 1
  yields : input.provider.Yields state.calls (trees.flatMap EventTree.serialize ++ [last])
  bound : state.nodes + (trees.flatMap EventTree.subtrees).length ≤ limits.maximumNodes

theorem CanRead.children {depth : Nat} {kind : NodeKind} {first last : YamlEvent}
    {children : List EventTree} {state : ParseState}
    (h : CanRead input limits depth (.collection kind first children last) state) (scalar : Bytes) :
    CanReadForest input limits depth children last (state.admitted depth scalar) := by
  obtain ⟨hadmitted, hdepth, hyields, hbound⟩ := h
  rw [EventTree.subtrees_collection] at hadmitted hbound
  rw [EventTree.serialize_collection, List.tail_cons] at hyields
  rw [List.length_cons] at hbound
  refine ⟨fun subtree hsubtree => hadmitted subtree (List.mem_cons_of_mem _ hsubtree),
    fun child hchild => ?_, hyields, ?_⟩
  · have hchildDepth := depth_lt_collection kind first last hchild
    omega
  · rw [ParseState.nodes_admitted]
    omega

section

variable {depth : Nat} {tree : EventTree} {trees : List EventTree} {last : YamlEvent}
  {state : ParseState}

theorem CanReadForest.first (h : CanReadForest input limits depth (tree :: trees) last state) :
    input.provider state.calls = .ok tree.first ∧
      CanRead input limits (depth + 1) tree (state.pulled (.ok tree.first)) := by
  obtain ⟨hadmitted, hdepth, hyields, hbound⟩ := h
  rw [List.flatMap_cons] at hadmitted hyields hbound
  rw [List.append_assoc, Provider.yields_append, tree.serialize_eq_cons] at hyields
  rw [List.length_append] at hbound
  refine ⟨hyields.1.1, fun subtree hsubtree => hadmitted subtree (List.mem_append_left _ hsubtree),
    hdepth tree List.mem_cons_self, hyields.1.2, ?_⟩
  rw [ParseState.nodes_pulled]
  omega

theorem CanReadForest.rest (h : CanReadForest input limits depth (tree :: trees) last state)
    {middle : ParseState}
    (hread : ReadsTree input limits (depth + 1) tree (state.pulled (.ok tree.first)) middle) :
    CanReadForest input limits depth trees last middle := by
  obtain ⟨hadmitted, hdepth, hyields, hbound⟩ := h
  rw [List.flatMap_cons] at hadmitted hyields hbound
  rw [List.append_assoc, Provider.yields_append, tree.serialize_eq_cons,
    List.length_cons] at hyields
  rw [List.length_append] at hbound
  have hmiddle : middle.calls = state.calls + (tree.serialize.tail.length + 1) := by
    rw [hread.calls, ParseState.calls_pulled]
    omega
  refine ⟨fun subtree hsubtree => hadmitted subtree (List.mem_append_right _ hsubtree),
    fun other hother => hdepth other (List.mem_cons_of_mem tree hother), hmiddle ▸ hyields.2, ?_⟩
  rw [hread.nodes, ParseState.nodes_pulled]
  omega

end

/-- The children of a collection are read in turn, given that each of them is. -/
theorem parseChildren_complete {kind : NodeKind} {path : Bytes} {depth : Nat} {last : YamlEvent}
    (hends : kind.endsWith last.kind = true) (trees : List EventTree)
    (hread : ∀ tree ∈ trees, ∀ fuel path depth state, 2 * tree.subtrees.length ≤ fuel →
      CanRead input limits depth tree state →
      Meets (parseNode input origin limits fuel tree.first path depth) state (Returns tree state)
        (fun _ _ => False)) :
    ∀ fuel index state, 2 * (trees.flatMap EventTree.subtrees).length + 1 ≤ fuel →
      CanReadForest input limits depth trees last state →
      Meets (parseChildren input origin limits fuel kind path depth index) state
        (fun nodes after => nodes = trees.map EventTree.toNode ∧
          ReadsForest input limits depth trees last state after)
        (fun _ _ => False) := by
  induction trees with
  | nil =>
      intro fuel index state hfuel hcan
      obtain ⟨fuel, rfl⟩ : ∃ rest, fuel = rest + 1 := ⟨fuel - 1, by omega⟩
      have hlast : last.kind ≠ .scalar := by
        intro hscalar
        rw [hscalar] at hends
        cases kind <;> simp [NodeKind.endsWith] at hends
      rw [parseChildren]
      refine Meets.bind (meets_next_of_yields hcan.yields.1 (fun h => absurd h hlast) ?_)
      rw [if_pos hends]
      exact Meets.pure ⟨rfl, .nil hcan.yields.1 hcan.bound⟩
  | cons tree trees ih =>
      intro fuel index state hfuel hcan
      obtain ⟨fuel, rfl⟩ : ∃ rest, fuel = rest + 1 := ⟨fuel - 1, by omega⟩
      rw [List.flatMap_cons, List.length_append] at hfuel
      obtain ⟨hprovider, hfirst⟩ := hcan.first
      have hself := hfirst.admitted tree tree.self_mem_subtrees
      have hpositive := length_subtrees_pos tree
      obtain ⟨hnoEnd, hnoStop⟩ := first_of_admitted hself kind
      rw [parseChildren]
      refine Meets.bind (meets_next_of_yields hprovider (scalar_of_admitted hself) ?_)
      rw [if_neg hnoEnd, if_neg hnoStop]
      refine Meets.bind (Meets.mono (hread tree List.mem_cons_self fuel _ _ _ (by omega) hfirst)
        (fun child middle _ hchild => ?_) fun _ _ _ h => h)
      have htree := hfirst.reads hchild
      obtain ⟨rfl, -⟩ := hchild
      refine Meets.bind (Meets.mono
        (ih (fun other h => hread other (List.mem_cons_of_mem tree h)) fuel (index + 1) middle
          (by omega) (hcan.rest htree))
        (fun rest after _ hafter => ?_) fun _ _ _ h => h)
      obtain ⟨rfl, hforest⟩ := hafter
      exact Meets.pure ⟨rfl, hforest.cons hprovider htree⟩

/-- On the events of an admissible tree the reader throws nothing and returns the tree. -/
theorem parseNode_complete (tree : EventTree) :
    ∀ fuel path depth state, 2 * tree.subtrees.length ≤ fuel →
      CanRead input limits depth tree state →
      Meets (parseNode input origin limits fuel tree.first path depth) state (Returns tree state)
        (fun _ _ => False) := by
  induction tree using EventTree.induction with
  | scalar event =>
      intro fuel path depth state hfuel hcan
      obtain ⟨fuel, rfl⟩ : ∃ rest, fuel = rest + 1 :=
        ⟨fuel - 1, by simp only [EventTree.subtrees, List.length_singleton] at hfuel; omega⟩
      have hself := hcan.admitted _ (List.mem_singleton.mpr rfl)
      have hkind : event.kind = .scalar := hself.bracketed
      have hopens : Opens .scalar event :=
        ⟨by rw [hkind]; rfl, hself.plain.1, permittedTag_iff.mpr hself.plain.2⟩
      have hdepth := one_le_depth (.scalar event)
      have hcanDepth := hcan.depth
      have hnodes : state.nodes < limits.maximumNodes := hcan.bound
      rw [parseNode]
      refine Meets.bind (meets_admitNode (fun kind hfound _ _ => ?_) fun code _ hrejects =>
        hrejects.elim hopens (by omega) hnodes)
      obtain rfl : NodeKind.scalar = kind := Option.some.inj (hopens.node.symm.trans hfound.node)
      exact Meets.pure ⟨rfl, rfl, rfl⟩
  | collection kind first children last ih =>
      intro fuel path depth state hfuel hcan
      rw [EventTree.subtrees_collection, List.length_cons] at hfuel
      obtain ⟨fuel, rfl⟩ : ∃ rest, fuel = rest + 1 := ⟨fuel - 1, by omega⟩
      have hself : (EventTree.collection kind first children last).Admitted limits :=
        hcan.admitted _ (EventTree.self_mem_subtrees _)
      obtain ⟨hopens, hcollection, hends⟩ := opens_of_admitted hself
      have hdepth := one_le_depth (.collection kind first children last)
      have hcanDepth := hcan.depth
      have hbound := hcan.bound
      rw [EventTree.subtrees_collection, List.length_cons] at hbound
      change Meets (parseNode input origin limits (fuel + 1) first path depth) state _ _
      rw [parseNode]
      refine Meets.bind (meets_admitNode (fun found hfound hwithin _ => ?_) fun code _ hrejects =>
        hrejects.elim hopens (by omega) (by omega))
      obtain rfl : kind = found := Option.some.inj (hopens.node.symm.trans hfound.node)
      rw [if_neg hcollection]
      refine Meets.bind (Meets.mono
        (parseChildren_complete hends children ih fuel 0 _ (by omega) (hcan.children _))
        (fun nodes after _ hafter => ?_) fun _ _ _ h => h)
      obtain ⟨rfl, hforest⟩ := hafter
      have hpaired : ¬(kind = .mapping ∧ (children.map EventTree.toNode).length % 2 ≠ 0) := by
        rintro ⟨hmapping, hodd⟩
        rw [List.length_map] at hodd
        exact hodd (hself.paired hmapping)
      have hread := hforest.close hopens hcollection hends hself.paired hwithin
      rw [if_neg hpaired]
      exact Meets.pure ⟨(EventTree.toNode_collection _ _ _ _).symm, hread.calls, hread.nodes⟩

end PkgsourceYaml
