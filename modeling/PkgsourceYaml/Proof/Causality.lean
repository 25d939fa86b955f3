import PkgsourceYaml.Library.Questions
import PkgsourceYaml.Prefix
import PkgsourceYaml.Proof.Envelope
import PkgsourceYaml.Recipe
import PkgsourceYaml.Profiles

/-!
# A run knows only what it pulled

The reader asks its provider for one result after the other and looks at nothing else. So two inputs
whose calls return the same up to the last call that one run makes lead to one and the same run.
-/

namespace PkgsourceYaml

open Questions

variable {left right : Input} {origin : SourceOrigin} {limits : ParseLimits}

/-- Two programs of the reader, each over its own input, compared by the results of their calls. -/
abbrev CausalRun {α : Type} (left right : Input) (origin : SourceOrigin) (limits : ParseLimits)
    (x y : ParseM α) : Prop :=
  Causal ParseState.calls (nextResult left origin limits) (nextResult right origin limits) x y

theorem CausalRun.fail {α : Type} {code : YamlErrorCode} {path : Bytes} {mark : SourceMark}
    {message : String} :
    CausalRun left right origin limits (fail origin code path mark message : ParseM α)
      (fail origin code path mark message) :=
  Causal.throw _

theorem causal_next :
    CausalRun left right origin limits (next left origin limits) (next right origin limits) := by
  intro state
  unfold next
  cases hresult : nextResult left origin limits state.calls with
  | ok event =>
      refine ⟨Nat.le_succ _, fun hagree => ?_⟩
      have hright : nextResult right origin limits state.calls = .ok event := by
        rw [← hagree state.calls (Nat.lt_succ_self _), hresult]
      simp only [hright]
  | error exception =>
      refine ⟨Nat.le_succ _, fun hagree => ?_⟩
      have hright : nextResult right origin limits state.calls = .error exception := by
        rw [← hagree state.calls (Nat.lt_succ_self _), hresult]
      simp only [hright]

theorem causal_accountNode (path : Bytes) (mark : SourceMark) (depth : Nat) :
    CausalRun left right origin limits (accountNode origin limits path mark depth)
      (accountNode origin limits path mark depth) := by
  unfold accountNode
  apply Causal.ite Iff.rfl (fun _ => CausalRun.fail)
  intro _
  apply Causal.bind Causal.get
  intro state
  exact Causal.ite Iff.rfl (fun _ => CausalRun.fail) fun _ =>
    Causal.modify fun state => Nat.le_refl state.calls

/-- Admitting a node looks at its first event and at the counter, and at no further call. -/
theorem causal_admitNode (first : YamlEvent) (path : Bytes) (depth : Nat) :
    CausalRun left right origin limits (admitNode origin limits first path depth)
      (admitNode origin limits first path depth) := by
  unfold admitNode
  apply Causal.bind (Causal.modify fun state => Nat.le_refl state.calls)
  intro _
  apply Causal.ite Iff.rfl (fun _ => CausalRun.fail)
  intro _
  cases first.kind.nodeKind? with
  | none => exact CausalRun.fail
  | some kind =>
      apply Causal.ite Iff.rfl (fun _ => CausalRun.fail)
      intro _
      apply Causal.ite Iff.rfl (fun _ => CausalRun.fail)
      intro _
      apply Causal.bind (causal_accountNode path first.mark depth)
      intro _
      apply Causal.bind (Causal.modify fun state => Nat.le_refl state.calls)
      intro _
      exact Causal.pure kind

theorem parse_causal :
    (∀ fuel first path depth,
      CausalRun left right origin limits (parseNode left origin limits fuel first path depth)
        (parseNode right origin limits fuel first path depth)) ∧
    ∀ fuel kind path depth index,
      CausalRun left right origin limits
        (parseChildren left origin limits fuel kind path depth index)
        (parseChildren right origin limits fuel kind path depth index) := by
  apply parseNode.mutual_induct
  · intro first path depth
    exact Causal.throw Exception.fuel
  · intro fuel first path depth ih
    rw [Nat.succ_eq_add_one, parseNode, parseNode]
    apply Causal.bind (causal_admitNode first path depth)
    intro kind
    apply Causal.ite Iff.rfl (fun _ => Causal.pure _)
    intro _
    apply Causal.bind (ih kind)
    intro children
    exact Causal.ite Iff.rfl (fun _ => CausalRun.fail) fun _ => Causal.pure _
  · intro kind path depth index
    exact Causal.throw Exception.fuel
  · intro fuel kind path depth index ihNode ihRest
    rw [Nat.succ_eq_add_one, parseChildren, parseChildren]
    apply Causal.bind causal_next
    intro event
    apply Causal.ite Iff.rfl (fun _ => Causal.pure _)
    intro _
    apply Causal.ite Iff.rfl (fun _ => CausalRun.fail)
    intro _
    apply Causal.bind (ihNode event)
    intro child
    apply Causal.bind ihRest
    intro rest
    exact Causal.pure (child :: rest)

theorem causal_readEnd :
    CausalRun left right origin limits (readTree.readEnd left origin limits)
      (readTree.readEnd right origin limits) := by
  unfold readTree.readEnd
  apply Causal.bind causal_next
  intro documentEnd
  apply Causal.ite Iff.rfl (fun _ => CausalRun.fail)
  intro _
  apply Causal.bind causal_next
  intro streamEnd
  apply Causal.ite Iff.rfl (fun _ => CausalRun.fail)
  intro _
  exact Causal.ite Iff.rfl (fun _ => CausalRun.fail) fun _ => Causal.pure ()

theorem causal_readTree {fuel : Nat}
    (hbytes : limits.maximumDocumentBytes < left.byteLength ↔
      limits.maximumDocumentBytes < right.byteLength) :
    CausalRun left right origin limits (readTree left origin limits fuel)
      (readTree right origin limits fuel) := by
  unfold readTree
  apply Causal.ite hbytes (fun _ => CausalRun.fail)
  intro _
  apply Causal.bind causal_next
  intro streamStart
  apply Causal.ite Iff.rfl (fun _ => CausalRun.fail)
  intro _
  apply Causal.bind causal_next
  intro documentStart
  apply Causal.ite Iff.rfl (fun _ => CausalRun.fail)
  intro _
  apply Causal.ite Iff.rfl (fun _ => CausalRun.fail)
  intro _
  apply Causal.bind causal_next
  intro first
  apply Causal.ite Iff.rfl (fun _ => CausalRun.fail)
  intro _
  apply Causal.bind (parse_causal.1 fuel first (ascii "$") 1)
  intro root
  apply Causal.bind causal_readEnd
  intro _
  exact Causal.pure root

theorem causal_parseDocument
    (hbytes : limits.maximumDocumentBytes < left.byteLength ↔
      limits.maximumDocumentBytes < right.byteLength) :
    CausalRun left right origin limits (parseDocument left origin limits)
      (parseDocument right origin limits) := by
  unfold parseDocument
  apply Causal.bind (causal_readTree hbytes)
  intro root
  refine Causal.bind ?_ fun _ => Causal.pure root
  -- the pass over the keys asks for nothing
  cases validateTree origin root (ascii "$") with
  | ok _ => exact Causal.pure ()
  | error exception => exact Causal.throw exception

theorem finalState_eq_finalOf (input : Input) (origin : SourceOrigin) (limits : ParseLimits) :
    finalState input origin limits = finalOf (runDocument input origin limits) := by
  unfold finalState
  cases runDocument input origin limits with
  | ok root after => rfl
  | error exception after => rfl

/-- The two inputs are on the same side of the byte ceiling, and every call that the run over the
left one makes returns the same over the right one. -/
structure SamePulls (left right : Input) (origin : SourceOrigin) (limits : ParseLimits) : Prop where
  bytes : limits.maximumDocumentBytes < left.byteLength ↔
    limits.maximumDocumentBytes < right.byteLength
  results : ∀ index < (finalState left origin limits).calls,
    nextResult left origin limits index = nextResult right origin limits index

theorem runDocument_of_samePulls (h : SamePulls left right origin limits) :
    runDocument right origin limits = runDocument left origin limits := by
  have hresults := h.results
  rw [finalState_eq_finalOf] at hresults
  exact (causal_parseDocument h.bytes {}).same hresults

theorem finalState_of_samePulls (h : SamePulls left right origin limits) :
    finalState right origin limits = finalState left origin limits := by
  rw [finalState_eq_finalOf, finalState_eq_finalOf, runDocument_of_samePulls h]

theorem documentOutcome_of_samePulls (h : SamePulls left right origin limits) :
    documentOutcome right origin limits = documentOutcome left origin limits := by
  unfold documentOutcome
  rw [runDocument_of_samePulls h]

/-- **Causality.** Whatever lies past the calls a run makes has no part in it: where two inputs are
on the same side of the byte ceiling and agree on the calls that the run over the left one makes,
the run over the right one ends in the same state, after the same steps, and both entry points
return or throw the same. -/
theorem run_is_causal (core : Core) (context : Context) (order : EvaluationOrder)
    (left right : Input) (limits : ParseLimits)
    (h : SamePulls left right context.origin limits) :
    finalState right context.origin limits = finalState left context.origin limits ∧
    parseRecipeYaml core context order right limits =
      parseRecipeYaml core context order left limits ∧
    parseProfilesYaml core context right limits = parseProfilesYaml core context left limits := by
  have hdocument := documentOutcome_of_samePulls h
  refine ⟨finalState_of_samePulls h, ?_, ?_⟩
  · unfold parseRecipeYaml
    rw [hdocument]
  · unfold parseProfilesYaml
    rw [hdocument]

/-- An empty mapping, and the beginning of a second document. -/
def secondDocumentBegins : List YamlEvent :=
  [{ kind := .streamStart }, { kind := .documentStart }, { kind := .mappingStart },
    { kind := .mappingEnd }, { kind := .documentEnd }, { kind := .documentStart }]

/-- Whether the second document goes on or the provider fails there, the reader has stopped. -/
theorem run_is_causal_second_document :
    parseProfilesYaml Core.permissive ⟨⟨ascii "profiles.yaml"⟩, false⟩
        (Input.cut 0 (secondDocumentBegins ++ [{ kind := .scalar }, { kind := .documentEnd }])
          .badAlloc) {} =
      parseProfilesYaml Core.permissive ⟨⟨ascii "profiles.yaml"⟩, false⟩
        (Input.cut 0 secondDocumentBegins (.logicError (ascii "never called"))) {} := by
  have hsame : SamePulls (Input.cut 0 secondDocumentBegins (.logicError (ascii "never called")))
      (Input.cut 0 (secondDocumentBegins ++ [{ kind := .scalar }, { kind := .documentEnd }])
        .badAlloc) ⟨ascii "profiles.yaml"⟩ {} := by
    refine ⟨Iff.rfl, ?_⟩
    have hcalls : (finalState (Input.cut 0 secondDocumentBegins
        (.logicError (ascii "never called"))) ⟨ascii "profiles.yaml"⟩ {}).calls = 6 := by decide
    rw [hcalls]
    decide
  exact (run_is_causal Core.permissive ⟨⟨ascii "profiles.yaml"⟩, false⟩ .textual _ _ {} hsame).2.2

end PkgsourceYaml
