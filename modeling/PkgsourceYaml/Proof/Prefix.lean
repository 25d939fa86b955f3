import PkgsourceYaml.Proof.Progress
import PkgsourceYaml.Proof.Causality
import PkgsourceYaml.Proof.Surfacing

/-!
# The reader stops at the first event that no document continues

How far a run comes is how far the scan comes: behind events the scan takes, a provider that fails
is asked once more, and by causality so is any other.
-/

namespace PkgsourceYaml

open Throwing Runs

variable {input : Input} {origin : SourceOrigin} {limits : ParseLimits}

theorem nextResult_of_scanStep {scan after : Scan} {event : YamlEvent} {index : Nat}
    (h : ScanStep origin limits scan event after) (hprovider : input.provider index = .ok event) :
    nextResult input origin limits index = .ok event :=
  nextResult_eq_ok_iff.mpr ⟨hprovider, h.scalar⟩

/-- Over events it takes, the pass of the flat scan is where the steps lead. -/
theorem scanFrom_of_scans {start scan : Scan} {events : List YamlEvent} {index : Nat}
    (h : Scans origin limits start events scan) (hyields : input.provider.Yields index events) :
    ∀ more, scanFrom origin limits input (events.length + more) index start =
      scanFrom origin limits input more (index + events.length) scan := by
  induction h with
  | nil =>
      intro more
      rw [List.length_nil, Nat.zero_add, Nat.add_zero]
  | @snoc events event scan after hrun hstep ih =>
      rw [Provider.yields_append] at hyields
      intro more
      calc scanFrom origin limits input ((events ++ [event]).length + more) index start
          = scanFrom origin limits input (events.length + (more + 1)) index start := by
            rw [List.length_append, List.length_singleton, Nat.add_assoc, Nat.add_comm 1]
        _ = scanFrom origin limits input (more + 1) (index + events.length) scan :=
            ih hyields.1 (more + 1)
        _ = scanFrom origin limits input more (index + events.length + 1) after := by
            rw [scanFrom_step hstep.asks, nextResult_of_scanStep hstep hyields.2.1]
            exact bind_of_ok hstep.taken
        _ = scanFrom origin limits input more (index + (events ++ [event]).length) after := by
            rw [List.length_append, List.length_singleton, Nat.add_assoc]

/-- The scan itself throws nothing but `yaml_error`s. -/
theorem scanEvent_throws (event : YamlEvent) (nodes : Nat) (phase : ScanPhase) :
    Throws (scanEvent origin limits event nodes phase) Exception.IsYaml := by
  have hfail : ∀ {α : Type} {code : YamlErrorCode} {path : Bytes} {message : String}
      {mark : SourceMark}, Throws (scanFail origin code path mark message : Except Exception α)
        Exception.IsYaml :=
    Throws.throw (isYaml_failure _ _ _ _ _)
  have hnode : ∀ stack, Throws (scanNode origin limits stack nodes event) Exception.IsYaml := by
    intro stack
    unfold scanNode
    apply Throws.ite (fun _ => hfail)
    intro _
    cases event.kind.nodeKind? with
    | none => exact hfail
    | some kind =>
        apply Throws.ite (fun _ => hfail)
        intro _
        apply Throws.ite (fun _ => hfail)
        intro _
        apply Throws.ite (fun _ => hfail)
        intro _
        apply Throws.ite (fun _ => hfail)
        intro _
        exact Throws.ite (fun _ => Throws.pure) fun _ => Throws.pure
  cases phase with
  | streamStart => exact Throws.ite (fun _ => hfail) fun _ => Throws.pure
  | documentStart =>
      apply Throws.ite (fun _ => hfail)
      intro _
      exact Throws.ite (fun _ => hfail) fun _ => Throws.pure
  | root => exact Throws.ite (fun _ => hfail) fun _ => hnode []
  | inside top below =>
      apply Throws.ite
      · intro _
        exact Throws.bind (Throws.ite (fun _ => hfail) fun _ => Throws.pure) fun _ _ => Throws.pure
      · intro _
        exact Throws.ite (fun _ => hfail) fun _ => hnode (top :: below)
  | documentEnd root => exact Throws.ite (fun _ => hfail) fun _ => Throws.pure
  | streamEnd root =>
      apply Throws.ite (fun _ => hfail)
      intro _
      exact Throws.ite (fun _ => hfail) fun _ => Throws.pure
  | done root => exact Throws.pure

/-- A call that yields an event but throws rejects it as too long. -/
theorem isYaml_of_yielded {index : Nat} {event : YamlEvent} {exception : Exception}
    (hprovider : input.provider index = .ok event)
    (h : nextResult input origin limits index = .error exception) : exception.IsYaml := by
  rw [nextResult, hprovider] at h
  by_cases hlong : event.kind = .scalar ∧ limits.maximumScalarBytes < event.value.length
  · simp only [if_pos hlong] at h
    rw [← Except.error.inj h]
    exact isYaml_failure _ _ _ _ _
  · simp only [if_neg hlong] at h
    cases h

/-- A pass that ends with the provider's own failure has taken every event before it. -/
theorem scans_of_scanFrom {failed : Exception} (hyaml : ¬failed.IsYaml) (hfuel : failed ≠ .fuel)
    {events : List YamlEvent} : ∀ {budget index : Nat} {start : Scan},
    scanFrom origin limits input budget index start = .error failed →
    input.provider.Yields index events →
    ∃ scan, Scans origin limits start events scan ∧ ∀ root, scan.phase ≠ .done root := by
  induction events with
  | nil =>
      intro budget index start herror _
      obtain ⟨phase, nodes⟩ := start
      refine ⟨⟨phase, nodes⟩, Run.nil, fun root hroot => ?_⟩
      rw [show phase = .done root from hroot] at herror
      cases budget <;> cases herror
  | cons event rest ih =>
      intro budget index start herror hyields
      obtain ⟨phase, nodes⟩ := start
      have hasks : ∀ root, phase ≠ .done root := by
        rintro root rfl
        cases budget <;> cases herror
      cases budget with
      | zero =>
          have hzero : scanFrom origin limits input 0 index ⟨phase, nodes⟩ = .error .fuel := by
            cases phase with
            | done root => exact absurd rfl (hasks root)
            | _ => rfl
          rw [hzero] at herror
          exact absurd (Except.error.inj herror).symm hfuel
      | succ budget =>
          rw [scanFrom_step hasks] at herror
          by_cases hscalar : event.kind = .scalar → event.value.length ≤ limits.maximumScalarBytes
          · rw [bind_of_ok (nextResult_eq_ok_iff.mpr ⟨hyields.1, hscalar⟩)] at herror
            rcases bind_eq_error.mp herror with hthrow | ⟨after, hafter, hrest⟩
            · exact absurd (scanEvent_throws event nodes phase failed hthrow) hyaml
            · obtain ⟨scan, hscans, hmore⟩ := ih hrest hyields.2
              exact ⟨scan, Run.cons ⟨hasks, hscalar, hafter⟩ hscans, hmore⟩
          · rcases bind_eq_error.mp herror with hlong | ⟨found, hfound, -⟩
            · exact absurd (isYaml_of_yielded hyields.1 hlong) hyaml
            · obtain ⟨hprovider, hshort⟩ := nextResult_eq_ok_iff.mp hfound
              rw [hyields.1, Except.ok.injEq] at hprovider
              rw [← hprovider] at hshort
              exact absurd hshort hscalar

theorem Input.provider_cut {byteLength index : Nat} {events : List YamlEvent}
    {failed : ProviderFailure} (h : events.length ≤ index) :
    (Input.cut byteLength events failed).provider index = .error failed := by
  simp only [Input.cut, List.getElem?_eq_none h]

theorem Input.yields_cut {byteLength : Nat} {failed : ProviderFailure} (events : List YamlEvent) :
    (Input.cut byteLength events failed).provider.Yields 0 events := by
  have hyields : ∀ (before rest : List YamlEvent), before ++ rest = events →
      (Input.cut byteLength events failed).provider.Yields before.length rest := by
    intro before rest
    induction rest generalizing before with
    | nil => exact fun _ => trivial
    | cons event rest ih =>
        intro hevents
        constructor
        · have hget : events[before.length]? = some event := by
            rw [← hevents, List.getElem?_append_right (Nat.le_refl _), Nat.sub_self]
            rfl
          simp only [Input.cut, hget]
        · have hrest := ih (before ++ [event]) (by rw [← hevents]; simp)
          rw [List.length_append, List.length_singleton] at hrest
          exact hrest
  exact hyields [] events rfl

/-- Two inputs that yield the same events let a run come past them alike. -/
theorem past_of_yields {left right : Input} {events : List YamlEvent}
    (hbytes : limits.maximumDocumentBytes < left.byteLength ↔
      limits.maximumDocumentBytes < right.byteLength)
    (hleft : left.provider.Yields 0 events) (hright : right.provider.Yields 0 events)
    (h : events.length < (finalState right origin limits).calls) :
    events.length < (finalState left origin limits).calls := by
  by_contra hstops
  have hsame : SamePulls left right origin limits := by
    refine ⟨hbytes, fun index hindex => ?_⟩
    have hbelow : index < events.length := by omega
    have hl := hleft.get hbelow
    have hr := hright.get hbelow
    rw [Nat.zero_add] at hl hr
    unfold nextResult
    rw [hl, hr]
  rw [finalState_of_samePulls hsame] at h
  exact hstops h

/-- A reader whose provider fails after these events meets the failure just when the scan takes them
all and asks for more. -/
theorem past_cut_iff {byteLength : Nat} {events : List YamlEvent}
    (hbytes : byteLength ≤ limits.maximumDocumentBytes) :
    events.length < (finalState (Input.cut byteLength events .badAlloc) origin limits).calls ↔
      TakesAll origin limits events := by
  have hcall : nextResult (Input.cut byteLength events .badAlloc) origin limits events.length =
      .error .badAlloc := by
    unfold nextResult
    rw [Input.provider_cut (Nat.le_refl _)]
    rfl
  have hscan := scanDocument_eq_treeOutcome (Input.cut byteLength events .badAlloc) origin limits
  have hpass : ∀ budget, scanDocument origin limits (Input.cut byteLength events .badAlloc) budget =
      scanFrom origin limits (Input.cut byteLength events .badAlloc) budget 0 {} :=
    fun budget => if_neg (Nat.not_lt.mpr hbytes)
  constructor
  · intro hpast
    have htree := treeOutcome_of_thrown hpast hcall
    rw [← hscan 0, hpass] at htree
    exact scans_of_scanFrom (fun ⟨_, hyaml⟩ => Exception.noConfusion hyaml)
      Exception.noConfusion htree (Input.yields_cut events)
  · rintro ⟨⟨phase, nodes⟩, hscans, hasks⟩
    have htree : treeOutcome origin limits (Input.cut byteLength events .badAlloc) =
        .error .badAlloc := by
      rw [← hscan (events.length + 1), hpass,
        show scanBudget limits + (events.length + 1) = events.length + (scanBudget limits + 1) by
          omega,
        scanFrom_of_scans hscans (Input.yields_cut events), scanFrom_step hasks, Nat.zero_add,
        hcall]
      rfl
    have hdocument : documentOutcome (Input.cut byteLength events .badAlloc) origin limits =
        .error .badAlloc := by
      rw [documentOutcome_eq, htree]
      rfl
    rcases documentOutcome_cause hdocument with ⟨_, hyaml⟩ | ⟨index, hindex, hthrown⟩
    · cases hyaml
    · -- none of the events before the cut throws this
      by_contra hstops
      have hbelow : index < events.length := by omega
      have hevent := (@Input.yields_cut byteLength .badAlloc events).get hbelow
      rw [Nat.zero_add] at hevent
      obtain ⟨_, hyaml⟩ := isYaml_of_yielded hevent hthrown
      cases hyaml

/-- A run comes past the events its provider yields first just when the scan takes them all. -/
theorem past_iff {events : List YamlEvent} (hbytes : input.byteLength ≤ limits.maximumDocumentBytes)
    (hyields : input.provider.Yields 0 events) :
    events.length < (finalState input origin limits).calls ↔ TakesAll origin limits events := by
  have hcut := @Input.yields_cut input.byteLength .badAlloc events
  rw [← @past_cut_iff origin limits input.byteLength events hbytes]
  exact ⟨past_of_yields Iff.rfl hcut hyields, past_of_yields Iff.rfl hyields hcut⟩

/-- **The first hopeless event is the last one read.** However a stream begins, `parse_document`
goes on past these events just when the input is within the byte ceiling, some document begins with
them that is spelled out within the scalar ceiling (under some node and depth ceilings), and they
open no more nodes, and none deeper, than the run's own node and depth ceilings admit. So the reader
neither gives up on events that a document continues nor reads on after events that none does. -/
theorem past_iff_begins (origin : SourceOrigin) (limits : ParseLimits) (input : Input)
    (events : List YamlEvent) (hyields : input.provider.Yields 0 events) :
    events.length < (finalState input origin limits).calls ↔
      input.byteLength ≤ limits.maximumDocumentBytes ∧
        (∃ nodes depth, Begins ((limits.withNodes nodes).withDepth depth) events) ∧
        opened events ≤ limits.maximumNodes ∧ nesting events ≤ limits.maximumDepth := by
  by_cases hbytes : input.byteLength ≤ limits.maximumDocumentBytes
  · rw [past_iff hbytes hyields, takesAll_iff, and_iff_right hbytes]
  · have hunread : (finalState input origin limits).calls = 0 := by
      rw [finalState, runDocument_of_exceeded (Nat.lt_of_not_le hbytes)]
    rw [hunread]
    exact iff_of_false (Nat.not_lt_zero _) fun h => hbytes h.1

/-- A mapping as the first item of a sequence, both open: it has one empty key, and no value yet. -/
def keyWithoutValue : List OpenTree :=
  [⟨.mapping, { kind := .mappingStart }, [EventTree.text ""]⟩,
    ⟨.sequence, { kind := .sequenceStart }, []⟩]

def upToKey : List YamlEvent :=
  { kind := .streamStart } :: { kind := .documentStart } :: openEvents keyWithoutValue

theorem openStack_keyWithoutValue :
    OpenStack (({} : ParseLimits).withNodes 4) keyWithoutValue := by
  have hsequence : OpenTree.Admitted (({} : ParseLimits).withNodes 4) 0
      ⟨.sequence, { kind := .sequenceStart }, []⟩ :=
    ⟨⟨rfl, rfl, rfl⟩, by decide, by decide, fun child hchild => absurd hchild List.not_mem_nil⟩
  have hmapping : OpenTree.Admitted (({} : ParseLimits).withNodes 4) 1
      ⟨.mapping, { kind := .mappingStart }, [EventTree.text ""]⟩ := by
    refine ⟨⟨rfl, rfl, rfl⟩, by decide, by decide, fun child hchild => ?_⟩
    rw [List.mem_singleton.mp hchild]
    exact finished_text (by decide)
  exact ⟨hmapping, hsequence, trivial⟩

/-- One way to go on: an empty value, and both collections end. -/
theorem spelled_keyWithoutValue : ∃ document,
    SpelledDocument (({} : ParseLimits).withNodes 4) document ∧
      document.serialize = upToKey ++ [{ kind := .scalar }, { kind := .mappingEnd },
        { kind := .sequenceEnd }, { kind := .documentEnd }, { kind := .streamEnd }] := by
  have hstack := openStack_keyWithoutValue
  have hroot := (hstack.2.add hstack.1.finish).1.finish
  exact ⟨⟨{ kind := .streamStart }, { kind := .documentStart }, _, { kind := .documentEnd },
    { kind := .streamEnd }⟩, hroot.spelled ⟨rfl, rfl, rfl⟩ rfl rfl, rfl⟩

/-- A key without a value may still get one, so the reader goes on past it; but no document ends the
mapping there, and the event that does is the last one read. -/
theorem past_iff_begins_without_value :
    5 < (finalState (Input.cut 0 upToKey .badAlloc) ⟨ascii "recipe.yaml"⟩ {}).calls ∧
    ¬∃ nodes depth, Begins ((({} : ParseLimits).withNodes nodes).withDepth depth)
      (upToKey ++ [{ kind := .mappingEnd }]) := by
  constructor
  · obtain ⟨document, hspelled, hevents⟩ := spelled_keyWithoutValue
    exact (past_iff_begins ⟨ascii "recipe.yaml"⟩ {} (Input.cut 0 upToKey .badAlloc) upToKey
      (Input.yields_cut _)).mpr ⟨by decide, ⟨4, 64, document, _, hspelled, by decide, hevents⟩,
        by decide, by decide⟩
  · intro hbegins
    have hpast := (past_iff_begins ⟨ascii "recipe.yaml"⟩ {}
      (Input.cut 0 (upToKey ++ [{ kind := .mappingEnd }]) .badAlloc) _
      (Input.yields_cut _)).mpr ⟨by decide, hbegins, by decide, by decide⟩
    exact absurd hpast (by decide)

/-! ### Documents cut short -/

/-- An event the scan rejects, after events it takes, is how the reading of the tree ends. -/
theorem treeOutcome_of_rejected {events : List YamlEvent} {event : YamlEvent} {scan : Scan}
    {exception : Exception} (hbytes : input.byteLength ≤ limits.maximumDocumentBytes)
    (hyields : input.provider.Yields 0 (events ++ [event]))
    (hscans : Scans origin limits {} events scan) (hasks : ∀ root, scan.phase ≠ .done root)
    (hscalar : event.kind = .scalar → event.value.length ≤ limits.maximumScalarBytes)
    (hrejected : scanEvent origin limits event scan.nodes scan.phase = .error exception) :
    treeOutcome origin limits input = .error exception := by
  rw [Provider.yields_append] at hyields
  obtain ⟨phase, nodes⟩ := scan
  have hcall : nextResult input origin limits (0 + events.length) = .ok event :=
    nextResult_eq_ok_iff.mpr ⟨hyields.2.1, hscalar⟩
  calc treeOutcome origin limits input
      = scanDocument origin limits input (scanBudget limits + (events.length + 1)) :=
        (scanDocument_eq_treeOutcome input origin limits (events.length + 1)).symm
    _ = scanFrom origin limits input (events.length + (scanBudget limits + 1)) 0 {} := by
        rw [scanDocument, if_neg (Nat.not_lt.mpr hbytes), Nat.add_left_comm]
    _ = scanFrom origin limits input (scanBudget limits + 1) (0 + events.length) ⟨phase, nodes⟩ :=
        scanFrom_of_scans hscans hyields.1 (scanBudget limits + 1)
    _ = .error exception := by
        rw [scanFrom_step hasks, bind_of_ok hcall, hrejected]
        rfl

/-- The steps after `documentEnd` and `streamEnd` are one for each event still missing. -/
theorem length_of_streamEnd {rest : List YamlEvent} {root other : Node} {count nodes : Nat}
    (h : Scans origin limits ⟨.streamEnd other, count⟩ rest ⟨.done root, nodes⟩) :
    rest.length ≤ 1 := by
  cases rest with
  | nil => exact Nat.zero_le 1
  | cons event rest =>
      obtain ⟨after, hstep, hrest⟩ := h.of_cons
      have htaken := hstep.taken
      simp only [scanEvent, scanFail, ite_throw_eq_ok, pure_eq_ok] at htaken
      cases rest with
      | nil => exact Nat.le_refl 1
      | cons next rest =>
          obtain ⟨_, hnext, -⟩ := hrest.of_cons
          rw [← htaken.2.2] at hnext
          exact absurd rfl (hnext.asks other)

/-- Events that are cut short lead the scan to a phase in which it rejects the stream's end. -/
theorem CutShort.rejected {events : List YamlEvent} {complaint : Complaint}
    (h : CutShort limits events complaint) :
    ∃ phase, Progress limits phase events ∧ (∀ root, phase ≠ .done root) ∧
      ∀ (nodes : Nat) (last : YamlEvent), last.kind = .streamEnd →
        scanEvent origin limits last nodes phase =
          .error (failure complaint.code origin complaint.path last.mark complaint.message) := by
  have hasks : ∀ stack root, expecting stack ≠ .done root := by
    intro stack root
    cases stack <;> exact ScanPhase.noConfusion
  cases h with
  | beforeStream =>
      refine ⟨_, .streamStart, fun root => ScanPhase.noConfusion, fun nodes last hlast => ?_⟩
      exact if_pos (by simp [hlast])
  | beforeDocument hstream =>
      refine ⟨_, .documentStart hstream, fun root => ScanPhase.noConfusion, ?_⟩
      intro nodes last hlast
      exact if_pos (by simp [hlast])
  | beforeRoot hopening =>
      have hempty : OpenStack limits [] := trivial
      refine ⟨_, .node hopening hempty, hasks _, fun nodes last hlast => ?_⟩
      have hend : ¬last.kind = .documentEnd := by simp [hlast]
      have halias : ¬last.kind = .alias := by simp [hlast]
      have hnode : last.kind.nodeKind? = none := by rw [hlast]; rfl
      simp only [List.map_nil, expecting, scanEvent, scanNode, if_neg hend, if_neg halias, hnode]
      rfl
  | @inside stream document hopening top below hstack =>
      refine ⟨_, .node hopening hstack, hasks _, fun nodes last hlast => ?_⟩
      have hends : ¬top.frame.kind.endsWith last.kind = true := by
        rw [hlast]
        cases top.frame.kind <;> simp [NodeKind.endsWith]
      simp only [List.map_cons, expecting, scanEvent]
      rw [if_neg hends, if_pos (Or.inl hlast)]
      rfl
  | afterRoot hopening htree =>
      refine ⟨_, .documentEnd hopening htree, fun root => ScanPhase.noConfusion, ?_⟩
      intro nodes last hlast
      exact if_pos (by simp [hlast])

/-- The events tell what is reported where they are cut short. -/
theorem CutShort.unique {events : List YamlEvent} {complaint other : Complaint}
    (h : CutShort limits events complaint) (h' : CutShort limits events other) :
    other = complaint := by
  obtain ⟨phase, hprogress, hasks, hrejected⟩ := @CutShort.rejected ⟨[]⟩ limits _ _ h
  obtain ⟨phase', hprogress', hasks', hrejected'⟩ := @CutShort.rejected ⟨[]⟩ limits _ _ h'
  rw [hprogress.unique hasks hprogress' hasks'] at hrejected
  have hsame := (hrejected' 0 { kind := .streamEnd } rfl).symm.trans
    (hrejected 0 { kind := .streamEnd } rfl)
  simp only [failure, Except.error.injEq, Exception.yaml.injEq, YamlError.mk.injEq] at hsame
  obtain ⟨hcode, -, hpath, -, hmessage⟩ := hsame
  obtain ⟨code, path, message⟩ := complaint
  obtain ⟨code', path', message'⟩ := other
  rw [Complaint.mk.injEq]
  exact ⟨hcode, hpath, hmessage⟩

/-- What a document loses two or more events of is cut short. -/
theorem exists_cutShort {events rest : List YamlEvent} {scan : Scan} {root : Node} {nodes : Nat}
    (hscans : Scans origin limits {} events scan) (hasks : ∀ root, scan.phase ≠ .done root)
    (hrest : Scans origin limits scan rest ⟨.done root, nodes⟩) (hlost : 2 ≤ rest.length) :
    ∃ complaint, CutShort limits events complaint := by
  have hprogress := progress_of_scans hscans
  obtain ⟨phase, count⟩ := scan
  cases hprogress with
  | streamStart => exact ⟨_, .beforeStream⟩
  | documentStart hstream => exact ⟨_, .beforeDocument hstream⟩
  | @node stream document hopening stack hstack =>
      cases stack with
      | nil => exact ⟨_, .beforeRoot hopening⟩
      | cons top below => exact ⟨_, .inside hopening hstack⟩
  | documentEnd hopening htree => exact ⟨_, .afterRoot hopening htree⟩
  | streamEnd hopening htree hending =>
      have hone := length_of_streamEnd hrest
      omega
  | done => exact absurd rfl (hasks _)

/-- **No document survives being cut short.** Take the events of any spelled-out document within the
limits, drop the last two or more, and let the stream end there. What is left tells one complaint:
`invalid_document` where not even the root has begun, and else a syntax error, at the path of the
innermost collection left open. `parse_document` pulls exactly the events that are left and the
early end, and it and both entry points fail with that complaint at the mark of that end. -/
theorem document_cut_short (core : Core) (context : Context) (order : EvaluationOrder)
    (limits : ParseLimits) (input : Input) (document : DocumentEvents)
    (events rest : List YamlEvent) (last : YamlEvent)
    (hbytes : input.byteLength ≤ limits.maximumDocumentBytes)
    (hspelled : SpelledDocument limits document) (hcut : document.serialize = events ++ rest)
    (hlost : 2 ≤ rest.length) (hlast : last.kind = .streamEnd)
    (hyields : input.provider.Yields 0 (events ++ [last])) :
    (finalState input context.origin limits).calls = events.length + 1 ∧
    ∃ complaint : Complaint,
      (∀ other, CutShort limits events other ↔ other = complaint) ∧
      documentOutcome input context.origin limits = .error
        (failure complaint.code context.origin complaint.path last.mark complaint.message) ∧
      parseRecipeYaml core context order input limits = .error
        (failure complaint.code context.origin complaint.path last.mark complaint.message) ∧
      parseProfilesYaml core context input limits = .error
        (failure complaint.code context.origin complaint.path last.mark complaint.message) := by
  have hwhole := @scans_document context.origin limits document hspelled
  rw [hcut] at hwhole
  obtain ⟨scan, hscans, hrest⟩ := hwhole.split
  have hasks : ∀ root, scan.phase ≠ .done root := by
    cases rest with
    | nil => simp at hlost
    | cons event others =>
        obtain ⟨after, hstep, -⟩ := hrest.of_cons
        exact hstep.asks
  have hprovider := hyields
  rw [Provider.yields_append, Nat.zero_add] at hprovider
  have hlong : last.kind = .scalar → last.value.length ≤ limits.maximumScalarBytes := by
    simp [hlast]
  have hcall : nextResult input context.origin limits events.length = .ok last :=
    nextResult_eq_ok_iff.mpr ⟨hprovider.2.1, hlong⟩
  have hpast : events.length < (finalState input context.origin limits).calls :=
    (past_iff hbytes hprovider.1).mpr ⟨scan, hscans, hasks⟩
  have hended : ¬events.length + 1 < (finalState input context.origin limits).calls := by
    intro hmore
    have hends : Ends (nextResult input context.origin limits events.length) := by
      rw [hcall]
      exact .streamEnd last hlast
    exact finalState_stopped.earlier events.length hmore hends
  obtain ⟨complaint, hshort⟩ := exists_cutShort hscans hasks hrest hlost
  obtain ⟨phase, hprogress, hasks', hrejected⟩ :=
    @CutShort.rejected context.origin limits _ _ hshort
  -- the scan has come to the phase that rejects the end
  rw [hprogress.unique hasks' (progress_of_scans hscans) hasks] at hrejected
  have hdocument : documentOutcome input context.origin limits = .error
      (failure complaint.code context.origin complaint.path last.mark complaint.message) := by
    rw [documentOutcome_eq, treeOutcome_of_rejected hbytes hyields hscans hasks hlong
      (hrejected scan.nodes last hlast)]
    rfl
  refine ⟨by omega, complaint, fun other => ⟨hshort.unique, fun heq => heq ▸ hshort⟩,
    hdocument, ?_, ?_⟩
  · unfold parseRecipeYaml
    rw [hdocument]
    rfl
  · unfold parseProfilesYaml
    rw [hdocument]
    rfl

theorem document_cut_short_after_key :
    documentOutcome (Input.cut 0 (upToKey ++ [{ kind := .streamEnd, mark := ⟨2, 1⟩ }]) .badAlloc)
      ⟨ascii "recipe.yaml"⟩ (({} : ParseLimits).withNodes 4) =
        .error (failure .syntaxError ⟨ascii "recipe.yaml"⟩ (ascii "$[0]") ⟨2, 1⟩
          (ascii "unterminated YAML collection")) := by
  obtain ⟨document, hspelled, hevents⟩ := spelled_keyWithoutValue
  obtain ⟨-, complaint, hunique, hdocument, -⟩ :=
    document_cut_short Core.permissive ⟨⟨ascii "recipe.yaml"⟩, false⟩ .textual _
      (Input.cut 0 (upToKey ++ [{ kind := .streamEnd, mark := ⟨2, 1⟩ }]) .badAlloc) document
      upToKey _ { kind := .streamEnd, mark := ⟨2, 1⟩ } (by decide) hspelled hevents (by decide) rfl
      (Input.yields_cut _)
  have hinside := (hunique _).mp (.inside ⟨rfl, rfl, rfl⟩ (openStack_keyWithoutValue))
  rw [← hinside] at hdocument
  exact hdocument

end PkgsourceYaml
