import PkgsourceYaml.Proof.Causality
import PkgsourceYaml.Proof.ProfilesFaults
import PkgsourceYaml.Proof.Progress
import PkgsourceYaml.Proof.Surfacing

/-!
# Diagnostics point at what was read

Every mark that the scan keeps on its stack, and later in its tree, is the mark of an event it took.
So is the mark of whatever is reported, whichever layer reports it; and since by causality the run
would end the same if the provider gave up after the last call, the event is one it has pulled.
-/

namespace PkgsourceYaml

open Throwing

variable {input : Input} {origin : SourceOrigin} {limits : ParseLimits} {P : SourceMark → Prop}

/-! ### Marks carried along -/

def Node.MarkedBy (P : SourceMark → Prop) (node : Node) : Prop :=
  ∀ inner ∈ node.nodes, P inner.mark

def Frame.MarkedBy (P : SourceMark → Prop) (frame : Frame) : Prop :=
  P frame.mark ∧ ∀ node ∈ frame.completed, node.MarkedBy P

def ScanPhase.MarkedBy (P : SourceMark → Prop) : ScanPhase → Prop
  | .streamStart => True
  | .documentStart => True
  | .root => True
  | .inside top below => ∀ frame ∈ top :: below, frame.MarkedBy P
  | .documentEnd node => node.MarkedBy P
  | .streamEnd node => node.MarkedBy P
  | .done node => node.MarkedBy P

/-- A `yaml_error` has the caller's label and such a mark; nothing is said of other exceptions. -/
def Exception.MarkedBy (P : SourceMark → Prop) (origin : SourceOrigin) (exception : Exception) :
    Prop :=
  ∀ error, exception = .yaml error → error.document = origin.document ∧ P error.mark

theorem markedBy_failure {code : YamlErrorCode} {path message : Bytes} {mark : SourceMark}
    (h : P mark) : (failure code origin path mark message).MarkedBy P origin := by
  intro error herror
  rw [← Exception.yaml.inj herror]
  exact ⟨rfl, h⟩

theorem throws_scanFail {α : Type} {code : YamlErrorCode} {path : Bytes} {mark : SourceMark}
    {message : String} (h : P mark) :
    Throws (scanFail origin code path mark message : Except Exception α)
      (Exception.MarkedBy P origin) :=
  Throws.throw (markedBy_failure h)

theorem Node.markedBy_iff (node : Node) :
    node.MarkedBy P ↔ P node.mark ∧ ∀ child ∈ node.children, child.MarkedBy P :=
  Node.forall_nodes_iff node

theorem Node.markedBy_mark {node : Node} (h : node.MarkedBy P) : P node.mark :=
  h node node.self_mem_nodes

theorem markedBy_completeNode {node : Node} {stack : List Frame} (hnode : node.MarkedBy P)
    (hstack : ∀ frame ∈ stack, frame.MarkedBy P) : (completeNode node stack).MarkedBy P := by
  cases stack with
  | nil => exact hnode
  | cons top below =>
      obtain ⟨htop, hbelow⟩ := List.forall_mem_cons.mp hstack
      have hadded : (top.add node).MarkedBy P := by
        refine ⟨htop.1, fun child hchild => ?_⟩
        rcases List.mem_append.mp hchild with hold | hnew
        · exact htop.2 child hold
        · rw [List.mem_singleton.mp hnew]
          exact hnode
      exact List.forall_mem_cons.mpr ⟨hadded, hbelow⟩

theorem markedBy_openNode {kind : NodeKind} {event : YamlEvent} {stack : List Frame}
    (hevent : P event.mark) (hstack : ∀ frame ∈ stack, frame.MarkedBy P) :
    (openNode kind event stack).MarkedBy P := by
  unfold openNode
  by_cases hkind : kind = .scalar
  · rw [if_pos hkind]
    refine markedBy_completeNode ((Node.markedBy_iff _).mpr ⟨hevent, ?_⟩) hstack
    exact fun child hchild => absurd hchild List.not_mem_nil
  · rw [if_neg hkind]
    have hopened : Frame.MarkedBy P ⟨kind, event.mark, []⟩ :=
      ⟨hevent, fun child hchild => absurd hchild List.not_mem_nil⟩
    exact List.forall_mem_cons.mpr ⟨hopened, hstack⟩

theorem throws_scanNode {stack : List Frame} {nodes : Nat} {event : YamlEvent}
    (hevent : P event.mark) :
    Throws (scanNode origin limits stack nodes event) (Exception.MarkedBy P origin) := by
  unfold scanNode
  apply Throws.ite (fun _ => throws_scanFail hevent)
  intro _
  cases event.kind.nodeKind? with
  | none => exact throws_scanFail hevent
  | some kind =>
      apply Throws.ite (fun _ => throws_scanFail hevent)
      intro _
      apply Throws.ite (fun _ => throws_scanFail hevent)
      intro _
      apply Throws.ite (fun _ => throws_scanFail hevent)
      intro _
      apply Throws.ite (fun _ => throws_scanFail hevent)
      intro _
      exact Throws.ite (fun _ => Throws.pure) fun _ => Throws.pure

theorem throws_scanEvent {event : YamlEvent} {nodes : Nat} {phase : ScanPhase}
    (hevent : P event.mark) (hphase : phase.MarkedBy P) :
    Throws (scanEvent origin limits event nodes phase) (Exception.MarkedBy P origin) := by
  cases phase with
  | streamStart => exact Throws.ite (fun _ => throws_scanFail hevent) fun _ => Throws.pure
  | documentStart =>
      apply Throws.ite (fun _ => throws_scanFail hevent)
      intro _
      exact Throws.ite (fun _ => throws_scanFail hevent) fun _ => Throws.pure
  | root => exact Throws.ite (fun _ => throws_scanFail hevent) fun _ => throws_scanNode hevent
  | inside top below =>
      have htop : P top.mark := (hphase top List.mem_cons_self).1
      apply Throws.ite
      · intro _
        exact Throws.bind (Throws.ite (fun _ => throws_scanFail htop) fun _ => Throws.pure)
          fun _ _ => Throws.pure
      · intro _
        exact Throws.ite (fun _ => throws_scanFail hevent) fun _ => throws_scanNode hevent
  | documentEnd root => exact Throws.ite (fun _ => throws_scanFail hevent) fun _ => Throws.pure
  | streamEnd root =>
      apply Throws.ite (fun _ => throws_scanFail hevent)
      intro _
      exact Throws.ite (fun _ => throws_scanFail hevent) fun _ => Throws.pure
  | done root => exact Throws.pure

/-- Where the scan expects a node, its marks are kept by what comes. -/
theorem markedBy_of_expecting {stack : List Frame} {nodes : Nat} {event : YamlEvent} {after : Scan}
    (hevent : P event.mark) (hstack : ∀ frame ∈ stack, frame.MarkedBy P)
    (h : scanEvent origin limits event nodes (expecting stack) = .ok after) :
    after.phase.MarkedBy P := by
  rcases scanEvent_expecting h with ⟨kind, -, rfl⟩ | ⟨top, below, rfl, -, -, rfl⟩
  · exact markedBy_openNode hevent hstack
  · obtain ⟨htop, hbelow⟩ := List.forall_mem_cons.mp hstack
    exact markedBy_completeNode ((Node.markedBy_iff _).mpr htop) hbelow

theorem markedBy_of_scanEvent {event : YamlEvent} {nodes : Nat} {phase : ScanPhase} {after : Scan}
    (hevent : P event.mark) (hphase : phase.MarkedBy P)
    (h : scanEvent origin limits event nodes phase = .ok after) : after.phase.MarkedBy P := by
  cases phase with
  | streamStart =>
      obtain ⟨-, hafter⟩ := ite_throw_eq_ok.mp h
      rw [← pure_eq_ok.mp hafter]
      trivial
  | documentStart =>
      obtain ⟨-, hrest⟩ := ite_throw_eq_ok.mp h
      obtain ⟨-, hafter⟩ := ite_throw_eq_ok.mp hrest
      rw [← pure_eq_ok.mp hafter]
      trivial
  | root =>
      have hnone : ∀ frame ∈ ([] : List Frame), frame.MarkedBy P :=
        fun frame hframe => absurd hframe List.not_mem_nil
      exact markedBy_of_expecting hevent hnone h
  | inside top below => exact markedBy_of_expecting hevent hphase h
  | documentEnd root =>
      obtain ⟨-, hafter⟩ := ite_throw_eq_ok.mp h
      rw [← pure_eq_ok.mp hafter]
      exact hphase
  | streamEnd root =>
      obtain ⟨-, hrest⟩ := ite_throw_eq_ok.mp h
      obtain ⟨-, hafter⟩ := ite_throw_eq_ok.mp hrest
      rw [← pure_eq_ok.mp hafter]
      exact hphase
  | done root =>
      rw [← pure_eq_ok.mp h]
      exact hphase

/-! ### From the events to the tree -/

/-- What the document layer ends with, other than a mark that `P` admits: what a call threw. -/
def Exception.Traced (P : SourceMark → Prop) (input : Input) (origin : SourceOrigin)
    (exception : Exception) : Prop :=
  exception.MarkedBy P origin ∨
    ∃ index failed, input.provider index = .error failed ∧ exception = failed.exception

/-- Every event the provider may yield has such a mark. -/
def Input.MarkedBy (P : SourceMark → Prop) (input : Input) : Prop :=
  ∀ index event, input.provider index = .ok event → P event.mark

theorem traced_nextResult (hinput : input.MarkedBy P) (index : Nat) :
    Throws (nextResult input origin limits index) (Exception.Traced P input origin) := by
  unfold nextResult
  cases hprovider : input.provider index with
  | error failed => exact Throws.throw (Or.inr ⟨index, failed, hprovider, rfl⟩)
  | ok event =>
      have hevent := hinput index event hprovider
      exact Throws.ite (fun _ => Throws.throw (Or.inl (markedBy_failure hevent)))
        fun _ => Throws.pure

theorem mark_of_nextResult (hinput : input.MarkedBy P) {index : Nat} {event : YamlEvent}
    (h : nextResult input origin limits index = .ok event) : P event.mark :=
  hinput index event (nextResult_eq_ok_iff.mp h).1

/-- A computation that returns only trees with such marks, and throws only what is traced. -/
def Carries (P : SourceMark → Prop) (input : Input) (origin : SourceOrigin)
    (x : Except Exception Node) : Prop :=
  Throws x (Exception.Traced P input origin) ∧ ∀ root, x = .ok root → root.MarkedBy P

theorem Carries.pure {root : Node} (h : root.MarkedBy P) : Carries P input origin (pure root) := by
  refine ⟨Throws.pure, fun found hfound => ?_⟩
  rw [← pure_eq_ok.mp hfound]
  exact h

theorem Carries.bind {α : Type} {x : Except Exception α} {f : α → Except Exception Node}
    (hx : Throws x (Exception.Traced P input origin))
    (hf : ∀ a, x = .ok a → Carries P input origin (f a)) : Carries P input origin (x >>= f) := by
  refine ⟨Throws.bind hx fun a ha => (hf a ha).1, fun root hroot => ?_⟩
  obtain ⟨a, ha, hfound⟩ := bind_eq_ok.mp hroot
  exact (hf a ha).2 root hfound

/-- By induction on the budget: what one event leaves, the rest of the scan carries on. -/
theorem carries_scanFrom (hinput : input.MarkedBy P) (budget : Nat) :
    ∀ (index nodes : Nat) (phase : ScanPhase), phase.MarkedBy P →
      Carries P input origin (scanFrom origin limits input budget index ⟨phase, nodes⟩) := by
  induction budget with
  | zero =>
      intro index nodes phase hphase
      have hfuel : Carries P input origin (throw .fuel) :=
        ⟨Throws.throw (Or.inl fun error herror => Exception.noConfusion herror),
          fun root hroot => (throw_eq_ok.mp hroot).elim⟩
      cases phase with
      | done root => exact Carries.pure hphase
      | _ => exact hfuel
  | succ budget ih =>
      intro index nodes phase hphase
      by_cases hdone : ∃ root, phase = .done root
      · obtain ⟨root, rfl⟩ := hdone
        exact Carries.pure hphase
      · rw [scanFrom_step (not_exists.mp hdone)]
        apply Carries.bind (traced_nextResult hinput index)
        intro event hnext
        have hevent := mark_of_nextResult hinput hnext
        apply Carries.bind ((throws_scanEvent hevent hphase).mono fun _ => Or.inl)
        intro after hscan
        exact ih (index + 1) after.nodes after.phase (markedBy_of_scanEvent hevent hphase hscan)

/-- Key validation reports at the mark of a node: of the key it turns down. -/
theorem throws_validate :
    (∀ (node : Node) (path : Bytes), node.MarkedBy P →
      Throws (validateTree origin node path) (Exception.MarkedBy P origin)) ∧
    (∀ (children : List Node) (path : Bytes) (keys : List Bytes),
      (∀ child ∈ children, child.MarkedBy P) →
      Throws (validatePairs origin children path keys) (Exception.MarkedBy P origin)) ∧
    ∀ (items : List Node) (path : Bytes) (index : Nat), (∀ item ∈ items, item.MarkedBy P) →
      Throws (validateItems origin items path index) (Exception.MarkedBy P origin) := by
  apply validateTree.mutual_induct
  · intro mark scalar children path _
    exact Throws.pure
  · intro mark scalar children path ih hnode
    exact ih ((Node.markedBy_iff _).mp hnode).2
  · intro mark scalar children path ih hnode
    exact ih ((Node.markedBy_iff _).mp hnode).2
  · intro path keys _
    exact Throws.pure
  · intro last path keys _
    exact Throws.throw fun error herror => Exception.noConfusion herror
  · intro key child rest path keys hkind hchildren
    rw [validatePairs, if_pos hkind]
    exact Throws.throw (markedBy_failure (Node.markedBy_mark (hchildren key List.mem_cons_self)))
  · intro key child rest path keys hkind hmerge hchildren
    rw [validatePairs, if_neg hkind, if_pos hmerge]
    exact Throws.throw (markedBy_failure (Node.markedBy_mark (hchildren key List.mem_cons_self)))
  · intro key child rest path keys hkind hmerge hseen hchildren
    rw [validatePairs, if_neg hkind, if_neg hmerge, if_pos hseen]
    exact Throws.throw (markedBy_failure (Node.markedBy_mark (hchildren key List.mem_cons_self)))
  · intro key child rest path keys hkind hmerge hseen ihChild ihRest hchildren
    obtain ⟨-, hvalues⟩ := List.forall_mem_cons.mp hchildren
    obtain ⟨hchild, hrest⟩ := List.forall_mem_cons.mp hvalues
    rw [validatePairs, if_neg hkind, if_neg hmerge, if_neg hseen]
    exact Throws.bind (ihChild hchild) fun _ _ => ihRest hrest
  · intro path index _
    exact Throws.pure
  · intro item rest path index ihItem ihRest hitems
    obtain ⟨hitem, hrest⟩ := List.forall_mem_cons.mp hitems
    rw [validateItems]
    exact Throws.bind (ihItem hitem) fun _ _ => ihRest hrest

theorem treeOutcome_eq_scanFrom (hbytes : ¬limits.maximumDocumentBytes < input.byteLength) :
    treeOutcome origin limits input = scanFrom origin limits input (scanBudget limits) 0 {} := by
  rw [← scanDocument_eq_treeOutcome input origin limits 0, scanDocument, if_neg hbytes]
  rfl

theorem carries_documentOutcome (hinput : input.MarkedBy P)
    (hbytes : ¬limits.maximumDocumentBytes < input.byteLength) :
    Carries P input origin (documentOutcome input origin limits) := by
  rw [documentOutcome_eq, treeOutcome_eq_scanFrom hbytes]
  have hscan : Carries P input origin (scanFrom origin limits input (scanBudget limits) 0 {}) :=
    carries_scanFrom hinput (scanBudget limits) 0 0 .streamStart trivial
  apply Carries.bind hscan.1
  intro root hroot
  have hmarked := hscan.2 root hroot
  apply Carries.bind ((throws_validate.1 root (ascii "$") hmarked).mono fun _ => Or.inl)
  intro _ _
  exact Carries.pure hmarked

/-! ### From the tree to the diagnostics of a grammar -/

theorem Node.mem_nodes_of_step? {node child : Node} {segment : Segment}
    (h : node.step? segment = some child) : child ∈ node.nodes := by
  cases segment with
  | key key =>
      obtain ⟨-, hfield⟩ := Option.ite_none_right_eq_some.mp h
      obtain ⟨keyNode, hpair, -⟩ := Node.pair_of_field? hfield
      exact (node.pair_mem_nodes node.self_mem_nodes hpair).2
  | index index =>
      obtain ⟨-, hitem⟩ := Option.ite_none_right_eq_some.mp h
      exact node.child_mem_nodes node.self_mem_nodes (List.mem_of_getElem? hitem)

theorem Node.mem_nodes_of_at? {inner : Node} (position : List Segment) :
    ∀ node : Node, node.at? position = some inner → inner ∈ node.nodes := by
  induction position with
  | nil =>
      intro node h
      rw [← Option.some.inj h]
      exact node.self_mem_nodes
  | cons segment rest ih =>
      intro node h
      obtain ⟨child, hstep, hrest⟩ := Option.bind_eq_some_iff.mp h
      exact node.nodes_subset (Node.mem_nodes_of_step? hstep) (ih child hrest)

theorem Fault.mark_mem {schema : Schema} {node : Node} {suffix : List Segment}
    {code : YamlErrorCode} {mark : SourceMark} (h : Fault schema node suffix code mark) :
    ∃ inner ∈ node.nodes, inner.mark = mark := by
  have hself := node.self_mem_nodes
  cases h with
  | wrongKind _ => exact ⟨node, hself, rfl⟩
  | unknownKey _ hpair _ => exact ⟨_, (node.pair_mem_nodes hself hpair).1, rfl⟩
  | missingKey _ _ _ => exact ⟨node, hself, rfl⟩
  | violated _ _ => exact ⟨node, hself, rfl⟩
  | badKey _ hpair _ => exact ⟨_, (node.pair_mem_nodes hself hpair).1, rfl⟩

theorem Diagnosed.markedBy {context : Context} {schema : Schema} {root : Node} {path : Bytes}
    {exception : Exception} (h : Diagnosed context schema root path exception)
    (hroot : root.MarkedBy P) : exception.MarkedBy P context.origin := by
  obtain ⟨position, code, mark, message, hfault, rfl⟩ := h
  obtain ⟨parent, suffix, node, inner, -, hnode, -, hlocal⟩ := hfault
  obtain ⟨found, hfound, rfl⟩ := hlocal.mark_mem
  exact markedBy_failure
    (hroot found (root.nodes_subset (Node.mem_nodes_of_at? parent root hnode) hfound))

/-! ### What the run has pulled -/

/-- The input whose provider gives up after a number of calls. -/
def Input.upTo (input : Input) (count : Nat) : Input where
  byteLength := input.byteLength
  provider index := if index < count then input.provider index else .error .badAlloc

theorem Input.provider_upTo_of_lt {index count : Nat} (h : index < count) :
    (input.upTo count).provider index = input.provider index :=
  if_pos h

theorem Input.provider_upTo_of_not_lt {index count : Nat} (h : ¬index < count) :
    (input.upTo count).provider index = .error .badAlloc :=
  if_neg h

theorem samePulls_upTo :
    SamePulls input (input.upTo (finalState input origin limits).calls) origin limits := by
  refine ⟨Iff.rfl, fun index hindex => ?_⟩
  unfold nextResult
  rw [Input.provider_upTo_of_lt hindex]

/-- The mark of an event that the run has pulled. -/
def Pulled (input : Input) (origin : SourceOrigin) (limits : ParseLimits) (mark : SourceMark) :
    Prop :=
  ∃ index event, index < (finalState input origin limits).calls ∧
    input.provider index = .ok event ∧ event.mark = mark

theorem markedBy_upTo :
    (input.upTo (finalState input origin limits).calls).MarkedBy (Pulled input origin limits) := by
  intro index event hevent
  by_cases hindex : index < (finalState input origin limits).calls
  · rw [Input.provider_upTo_of_lt hindex] at hevent
    exact ⟨index, event, hindex, hevent, rfl⟩
  · rw [Input.provider_upTo_of_not_lt hindex] at hevent
    cases hevent

/-- Where a diagnostic of a run comes from: from an event the run has pulled, from the byte ceiling
before the first call, or from the last call, which reported it. -/
inductive Sourced (input : Input) (origin : SourceOrigin) (limits : ParseLimits)
    (error : YamlError) : Prop where
  | event (document : error.document = origin.document)
      (mark : Pulled input origin limits error.mark)
  | ceiling (document : error.document = origin.document) (mark : error.mark = ⟨1, 1⟩)
      (code : error.code = .resourceLimit)
      (exceeded : limits.maximumDocumentBytes < input.byteLength)
      (unread : (finalState input origin limits).calls = 0)
  | provider {index : Nat} (last : index + 1 = (finalState input origin limits).calls)
      (reported : input.provider index = .error (.yaml error))

theorem Exception.MarkedBy.sourced {error : YamlError}
    (h : (Exception.yaml error).MarkedBy (Pulled input origin limits) origin) :
    Sourced input origin limits error :=
  .event (h error rfl).1 (h error rfl).2

/-- A call that reported a diagnostic is one the run has made. -/
theorem sourced_of_thrown {error : YamlError} {index : Nat} {failed : ProviderFailure}
    (hprovider : (input.upTo (finalState input origin limits).calls).provider index = .error failed)
    (hfailed : .yaml error = failed.exception) : Sourced input origin limits error := by
  by_cases hindex : index < (finalState input origin limits).calls
  · rw [Input.provider_upTo_of_lt hindex] at hprovider
    have hresult : nextResult input origin limits index = .error (.yaml error) := by
      rw [nextResult, hprovider, hfailed]
    cases failed with
    | yaml reported =>
        rw [← Exception.yaml.inj hfailed] at hprovider
        exact .provider (last_of_thrown hindex hresult) hprovider
    | badAlloc => cases hfailed
    | logicError what => cases hfailed
  · rw [Input.provider_upTo_of_not_lt hindex] at hprovider
    rw [← Except.error.inj hprovider] at hfailed
    cases hfailed

theorem sourced_of_decoded {α : Type} {context : Context} {schema : Schema}
    {Leak : Node → Exception → Prop} {decode : Node → Except Exception α}
    (hdecode : ∀ root : Node, root.Valid →
      Reports (Leak root) context schema root (ascii "$") (decode root))
    (hleak : ∀ root exception, Leak root exception → ∃ failed, exception = .core failed)
    {error : YamlError}
    (h : (documentOutcome input context.origin limits >>= decode) = .error (.yaml error)) :
    Sourced input context.origin limits error := by
  by_cases hbytes : limits.maximumDocumentBytes < input.byteLength
  · have hrun := @runDocument_of_exceeded input context.origin limits hbytes
    rw [documentOutcome, hrun] at h
    obtain rfl := Exception.yaml.inj (Except.error.inj h)
    refine .ceiling rfl rfl rfl hbytes ?_
    rw [finalState, hrun]
  · rw [← documentOutcome_of_samePulls samePulls_upTo] at h
    have hinput := @markedBy_upTo input context.origin limits
    have hdocument := @carries_documentOutcome _ context.origin limits _ hinput hbytes
    rcases bind_eq_error.mp h with hread | ⟨root, hroot, hvalue⟩
    · rcases hdocument.1 _ hread with hmarked | ⟨_, _, hthrown, heq⟩
      · exact hmarked.sourced
      · exact sourced_of_thrown hthrown heq
    · rcases hdecode root (valid_of_documentOutcome hroot) _ hvalue with hdiagnosed | hleaked
      · exact (hdiagnosed.markedBy (hdocument.2 root hroot)).sourced
      · obtain ⟨failed, hcore⟩ := hleak root _ hleaked
        cases hcore

/-- **Diagnostics point at what was read.** Whatever the provider yields, the limits and
`libpkgsource`, every `yaml_error` of either entry point carries the caller's label and the mark of
an event that the run has pulled, unless the byte ceiling ended the run before its first call or the
last call reported the error itself. -/
theorem diagnostics_sourced (core : Core) (context : Context) (order : EvaluationOrder)
    (input : Input) (limits : ParseLimits) (error : YamlError)
    (h : parseRecipeYaml core context order input limits = .error (.yaml error) ∨
      parseProfilesYaml core context input limits = .error (.yaml error)) :
    Sourced input context.origin limits error := by
  rcases h with hrecipe | hprofiles
  · exact sourced_of_decoded (fun root hvalid => reports_recipeValue hvalid)
      (fun _ _ => RecipeLeak.exists_core) hrecipe
  · exact sourced_of_decoded (fun root hvalid => reports_profilesValue hvalid)
      (fun _ _ => ProfilesLeak.exists_core) hprofiles

theorem diagnostics_sourced_foreign :
    Sourced (.spelling 300 foreignRecipe) ⟨ascii "recipe.yaml"⟩ {}
      ⟨.invalidValue, ascii "recipe.yaml", ascii "build.language", ⟨10, 13⟩,
        ascii "language must be exactly posix-shell"⟩ :=
  diagnostics_sourced Core.permissive ⟨⟨ascii "recipe.yaml"⟩, false⟩ .textual
    (.spelling 300 foreignRecipe) {} _ (.inl rfl)

end PkgsourceYaml
