import PkgsourceYaml.Proof.Decoding
import PkgsourceYaml.Proof.Reading
import PkgsourceYaml.Proof.Document
import PkgsourceYaml.Proof.Containment

/-!
# Presentation does not influence meaning

Two inputs whose events agree but for marks, labels and the spelling of permitted tags are read step
by step in the same way, and their trees are the same but for marks. Everything after the reader
then ends alike as well.
-/

namespace PkgsourceYaml

open Throwing

variable {core : Core} {context context' : Context} {input input' : Input}
  {origin origin' : SourceOrigin} {limits : ParseLimits}

def BothOneBased (mark mark' : SourceMark) : Prop := mark.OneBased ∧ mark'.OneBased

theorem sameVerdict_failure (code : YamlErrorCode) (path : Bytes) (mark mark' : SourceMark)
    (message message' : Bytes) :
    (failure code origin path mark message).SameVerdict
      (failure code origin' path mark' message') :=
  ⟨rfl, rfl⟩

/-! ### The reader -/

/-- Corresponding events of two runs. -/
structure YamlEvent.Shown (event event' : YamlEvent) : Prop extends event.Restyled event' where
  marks : BothOneBased event.mark event'.mark

/-- Two inputs that differ in presentation only, with one-based marks in both. -/
structure Input.Shown (input input' : Input) : Prop extends input.Restyled input' where
  left : ∀ call event, input.provider call = .ok event → event.mark.OneBased
  right : ∀ call event, input'.provider call = .ok event → event.mark.OneBased

/-- Run from states at the same call and the same node count, both runs return related results at
such states, or both throw with the same verdict. -/
abbrev Accompanies {α β : Type} (left : ParseM α) (state : ParseState) (right : ParseM β)
    (state' : ParseState) (Q : α → β → Prop) : Prop :=
  Tracks (fun _ => False) (fun e _ e' _ => e.SameVerdict e') left state right state'
    fun a after b after' => (after.calls = after'.calls ∧ after.nodes = after'.nodes) ∧ Q a b

section

variable {state state' : ParseState}

theorem Accompanies.fail {α β : Type} {Q : α → β → Prop} {code : YamlErrorCode} {path : Bytes}
    {mark mark' : SourceMark} {message : String} :
    Accompanies (fail origin code path mark message : ParseM α) state
      (PkgsourceYaml.fail origin' code path mark' message : ParseM β) state' Q :=
  Tracks.throw (sameVerdict_failure _ _ _ _ _ _)

theorem Accompanies.pure {α β : Type} {Q : α → β → Prop} {a : α} {b : β}
    (hstate : state.calls = state'.calls ∧ state.nodes = state'.nodes) (h : Q a b) :
    Accompanies (pure a : ParseM α) state (Pure.pure b : ParseM β) state' Q :=
  Tracks.pure ⟨hstate, h⟩

theorem Accompanies.bind {α β α' β' : Type} {Q : α → β → Prop} {P : α' → β' → Prop}
    {left : ParseM α} {right : ParseM β} {f : α → ParseM α'} {g : β → ParseM β'}
    (h : Accompanies left state right state' Q)
    (hnext : ∀ a b after after', after.calls = after'.calls ∧ after.nodes = after'.nodes → Q a b →
      Accompanies (f a) after (g b) after' P) :
    Accompanies (left >>= f) state (right >>= g) state' P :=
  Tracks.bind (Tracks.mono h fun a after b after' hafter =>
    hnext a b after after' hafter.1 hafter.2)

theorem accompanies_next (h : input.Shown input')
    (hstate : state.calls = state'.calls ∧ state.nodes = state'.nodes) :
    Accompanies (next input origin limits) state (next input' origin' limits) state'
      YamlEvent.Shown := by
  have hcall := h.provider state.calls
  unfold Accompanies Tracks next nextResult
  rw [← hstate.1]
  cases hleft : input.provider state.calls with
  | error failed =>
      cases hright : input'.provider state.calls with
      | error failed' =>
          rw [hleft, hright] at hcall
          cases hcall with
          | error hverdict => exact Or.inr hverdict
      | ok event' =>
          rw [hleft, hright] at hcall
          cases hcall
  | ok event =>
      cases hright : input'.provider state.calls with
      | error failed' =>
          rw [hleft, hright] at hcall
          cases hcall
      | ok event' =>
          rw [hleft, hright] at hcall
          cases hcall with
          | ok hevent =>
              have hlong : (event.kind = .scalar ∧
                    limits.maximumScalarBytes < event.value.length) ↔
                  event'.kind = .scalar ∧ limits.maximumScalarBytes < event'.value.length := by
                rw [← hevent.kind]
                exact and_congr_right fun hscalar => by rw [hevent.value hscalar]
              by_cases hexceeds : event.kind = .scalar ∧
                  limits.maximumScalarBytes < event.value.length
              · simp only [if_pos hexceeds, if_pos (hlong.mp hexceeds)]
                exact Or.inr (sameVerdict_failure _ _ _ _ _ _)
              · simp only [if_neg hexceeds, if_neg (fun h => hexceeds (hlong.mpr h))]
                refine ⟨⟨?_, hstate.2⟩, hevent, h.left _ _ hleft, h.right _ _ hright⟩
                simp only [ParseState.calls_pulled, hstate.1]

theorem accompanies_modify {f g : ParseState → ParseState}
    (h : (f state).calls = (g state').calls ∧ (f state).nodes = (g state').nodes) :
    Accompanies (modify f) state (modify g) state' fun _ _ => True :=
  Tracks.modify ⟨h, trivial⟩

theorem accompanies_accountNode {path : Bytes} {mark mark' : SourceMark} {depth : Nat}
    (hstate : state.calls = state'.calls ∧ state.nodes = state'.nodes) :
    Accompanies (accountNode origin limits path mark depth) state
      (accountNode origin' limits path mark' depth) state' fun _ _ => True := by
  unfold accountNode
  apply Tracks.ite Iff.rfl (fun _ => Accompanies.fail)
  intro _
  have hget : Accompanies (get : ParseM ParseState) state (get : ParseM ParseState) state'
      fun found found' => found.nodes = found'.nodes := ⟨hstate, hstate.2⟩
  refine hget.bind fun found found' after after' hafter hnodes => ?_
  apply Tracks.ite (by rw [hnodes]) (fun _ => Accompanies.fail)
  intro _
  exact accompanies_modify ⟨hafter.1, congrArg (· + 1) hafter.2⟩

/-- A tag that the node kind permits stays permitted. -/
theorem YamlEvent.Restyled.permittedTag_eq {event event' : YamlEvent}
    (h : event.Restyled event') {kind : NodeKind} (hkind : event.kind.nodeKind? = some kind) :
    permittedTag kind event'.tag = permittedTag kind event.tag := by
  rcases h.tag with htag | ⟨kind', hkind', hleft, hright⟩
  · rw [htag]
  · obtain rfl : kind = kind' := Option.some.inj (hkind.symm.trans hkind')
    rw [permittedTag_iff.mpr hleft, permittedTag_iff.mpr hright]

theorem accompanies_admitNode {first first' : YamlEvent} (hfirst : first.Shown first')
    {path : Bytes} {depth : Nat}
    (hstate : state.calls = state'.calls ∧ state.nodes = state'.nodes) :
    Accompanies (admitNode origin limits first path depth) state
      (admitNode origin' limits first' path depth) state'
      fun kind kind' => kind = kind' ∧ first.kind.nodeKind? = some kind := by
  unfold admitNode
  refine (accompanies_modify (f := (·.entered depth)) (g := (·.entered depth)) hstate).bind ?_
  intro _ _ entered entered' hentered _
  apply Tracks.ite (by rw [hfirst.kind]) (fun _ => Accompanies.fail)
  intro _
  rw [← hfirst.kind]
  cases hkind : first.kind.nodeKind? with
  | none => exact Accompanies.fail
  | some kind =>
      apply Tracks.ite (not_congr hfirst.anchor) (fun _ => Accompanies.fail)
      intro _
      apply Tracks.ite (by rw [hfirst.permittedTag_eq hkind]) (fun _ => Accompanies.fail)
      intro _
      refine (accompanies_accountNode hentered).bind fun _ _ counted counted' hcounted _ => ?_
      refine (accompanies_modify hcounted).bind fun _ _ retained retained' hretained _ => ?_
      exact Accompanies.pure hretained ⟨rfl, rfl⟩

end

/-- The two readers build trees that are the same but for their marks. -/
theorem parse_accompanies (h : input.Shown input') :
    (∀ fuel first path depth, ∀ first' state state', first.Shown first' →
      state.calls = state'.calls ∧ state.nodes = state'.nodes →
      Accompanies (parseNode input origin limits fuel first path depth) state
        (parseNode input' origin' limits fuel first' path depth) state'
        (Node.Alike BothOneBased)) ∧
    ∀ fuel kind path depth index, ∀ state state',
      state.calls = state'.calls ∧ state.nodes = state'.nodes →
      Accompanies (parseChildren input origin limits fuel kind path depth index) state
        (parseChildren input' origin' limits fuel kind path depth index) state'
        (List.Forall₂ (Node.Alike BothOneBased)) := by
  apply parseNode.mutual_induct
  · intro first path depth first' state state' _ _
    rw [parseNode, parseNode]
    exact Tracks.throw rfl
  · intro fuel first path depth ih first' state state' hfirst hstate
    rw [Nat.succ_eq_add_one, parseNode, parseNode]
    refine (accompanies_admitNode hfirst hstate).bind ?_
    rintro kind _ admitted admitted' hadmitted ⟨rfl, hkind⟩
    apply Tracks.ite Iff.rfl
    · rintro rfl
      rw [hfirst.value (nodeKind?_eq_some_scalar.mp hkind)]
      exact Accompanies.pure hadmitted (.intro hfirst.marks List.Forall₂.nil)
    · intro _
      refine (ih kind admitted admitted' hadmitted).bind ?_
      intro children children' after after' hafter hchildren
      apply Tracks.ite (by rw [hchildren.length_eq]) (fun _ => Accompanies.fail)
      intro _
      exact Accompanies.pure hafter (.intro hfirst.marks hchildren)
  · intro kind path depth index state state' _
    rw [parseChildren, parseChildren]
    exact Tracks.throw rfl
  · intro fuel kind path depth index ihNode ihRest state state' hstate
    rw [Nat.succ_eq_add_one, parseChildren, parseChildren]
    refine (accompanies_next h hstate).bind ?_
    intro event event' pulled pulled' hpulled hevent
    rw [← hevent.kind]
    apply Tracks.ite Iff.rfl (fun _ => Accompanies.pure hpulled List.Forall₂.nil)
    intro _
    apply Tracks.ite Iff.rfl (fun _ => Accompanies.fail)
    intro _
    refine (ihNode event event' pulled pulled' hevent hpulled).bind ?_
    intro child child' middle middle' hmiddle hchild
    refine (ihRest middle middle' hmiddle).bind ?_
    intro rest rest' after after' hafter hrest
    exact Accompanies.pure hafter (List.Forall₂.cons hchild hrest)

theorem accompanies_readEnd (h : input.Shown input') {state state' : ParseState}
    (hstate : state.calls = state'.calls ∧ state.nodes = state'.nodes) :
    Accompanies (readTree.readEnd input origin limits) state
      (readTree.readEnd input' origin' limits) state' fun _ _ => True := by
  unfold readTree.readEnd
  refine (accompanies_next h hstate).bind fun event event' pulled pulled' hpulled hevent => ?_
  rw [← hevent.kind]
  apply Tracks.ite Iff.rfl (fun _ => Accompanies.fail)
  intro _
  refine (accompanies_next h hpulled).bind fun last last' after after' hafter hlast => ?_
  rw [← hlast.kind]
  apply Tracks.ite Iff.rfl (fun _ => Accompanies.fail)
  intro _
  apply Tracks.ite Iff.rfl (fun _ => Accompanies.fail)
  intro _
  exact Accompanies.pure hafter trivial

theorem accompanies_readTree (h : input.Shown input') (fuel : Nat) :
    Accompanies (readTree input origin limits fuel) {} (readTree input' origin' limits fuel) {}
      (Node.Alike BothOneBased) := by
  unfold readTree
  rw [← h.byteLength]
  apply Tracks.ite Iff.rfl (fun _ => Accompanies.fail)
  intro _
  refine (accompanies_next h ⟨rfl, rfl⟩).bind fun start start' opened opened' hopened hstart => ?_
  rw [← hstart.kind]
  apply Tracks.ite Iff.rfl (fun _ => Accompanies.fail)
  intro _
  refine (accompanies_next h hopened).bind ?_
  intro document document' begun begun' hbegun hdocument
  rw [← hdocument.kind, ← hdocument.directives]
  apply Tracks.ite Iff.rfl (fun _ => Accompanies.fail)
  intro _
  apply Tracks.ite Iff.rfl (fun _ => Accompanies.fail)
  intro _
  refine (accompanies_next h hbegun).bind fun first first' pulled pulled' hpulled hfirst => ?_
  rw [← hfirst.kind]
  apply Tracks.ite Iff.rfl (fun _ => Accompanies.fail)
  intro _
  refine ((parse_accompanies h).1 fuel first _ 1 first' _ _ hfirst hpulled).bind ?_
  intro root root' after after' hafter hroot
  exact (accompanies_readEnd h hafter).bind fun _ _ _ _ hlast _ => Accompanies.pure hlast hroot

/-! ### Key validation -/

/-- Key validation of two trees that are the same but for their marks ends alike. -/
theorem agrees_validate {Mark : SourceMark → SourceMark → Prop} :
    (∀ node path, ∀ node', Node.Alike Mark node node' →
      Agrees Exception.SameVerdict (fun _ _ => True) (validateTree origin node path)
        (validateTree origin' node' path)) ∧
    (∀ children path keys, ∀ children', List.Forall₂ (Node.Alike Mark) children children' →
      Agrees Exception.SameVerdict (fun _ _ => True) (validatePairs origin children path keys)
        (validatePairs origin' children' path keys)) ∧
    ∀ items path index, ∀ items', List.Forall₂ (Node.Alike Mark) items items' →
      Agrees Exception.SameVerdict (fun _ _ => True) (validateItems origin items path index)
        (validateItems origin' items' path index) := by
  apply validateTree.mutual_induct
  · intro mark scalar children path node' hnode
    cases hnode
    rw [validateTree, validateTree]
    exact Agrees.pure trivial
  · intro mark scalar children path ih node' hnode
    cases hnode with
    | intro _ hchildren =>
        rw [validateTree, validateTree]
        exact ih _ hchildren
  · intro mark scalar children path ih node' hnode
    cases hnode with
    | intro _ hchildren =>
        rw [validateTree, validateTree]
        exact ih _ hchildren
  · intro path keys children' hchildren
    cases hchildren
    exact Agrees.pure trivial
  · intro last path keys children' hchildren
    obtain ⟨last', rest', -, hrest, rfl⟩ := List.forall₂_cons_left_iff.mp hchildren
    cases hrest
    exact Agrees.throw rfl
  · intro key child rest path keys hkind children' hchildren
    obtain ⟨key', child', rest', hkey, -, -, rfl⟩ := Pairing.exists_pair_of_forall₂ hchildren
    rw [validatePairs, validatePairs, hkey.kind_eq, if_pos hkind, if_pos hkind]
    exact Agrees.throw (sameVerdict_failure _ _ _ _ _ _)
  · intro key child rest path keys hkind hmerge children' hchildren
    obtain ⟨key', child', rest', hkey, -, -, rfl⟩ := Pairing.exists_pair_of_forall₂ hchildren
    rw [validatePairs, validatePairs, hkey.kind_eq, hkey.scalar_eq, if_neg hkind,
      if_neg hkind, if_pos hmerge, if_pos hmerge]
    exact Agrees.throw (sameVerdict_failure _ _ _ _ _ _)
  · intro key child rest path keys hkind hmerge hseen children' hchildren
    obtain ⟨key', child', rest', hkey, -, -, rfl⟩ := Pairing.exists_pair_of_forall₂ hchildren
    rw [validatePairs, validatePairs, hkey.kind_eq, hkey.scalar_eq, if_neg hkind,
      if_neg hkind, if_neg hmerge, if_neg hmerge, if_pos hseen, if_pos hseen]
    exact Agrees.throw (sameVerdict_failure _ _ _ _ _ _)
  · intro key child rest path keys hkind hmerge hseen ihChild ihRest children' hchildren
    obtain ⟨key', child', rest', hkey, hchild, hrest, rfl⟩ :=
      Pairing.exists_pair_of_forall₂ hchildren
    rw [validatePairs, validatePairs, hkey.kind_eq, hkey.scalar_eq, if_neg hkind,
      if_neg hkind, if_neg hmerge, if_neg hmerge, if_neg hseen, if_neg hseen]
    exact (ihChild child' hchild).bind fun _ _ _ _ _ => ihRest rest' hrest
  · intro path index items' hitems
    cases hitems
    exact Agrees.pure trivial
  · intro item rest path index ihItem ihRest items' hitems
    obtain ⟨item', rest', hitem, hrest, rfl⟩ := List.forall₂_cons_left_iff.mp hitems
    rw [validateItems, validateItems]
    exact (ihItem item' hitem).bind fun _ _ _ _ _ => ihRest rest' hrest

theorem accompanies_liftExcept {α β : Type} {Q : α → β → Prop} {x : Except Exception α}
    {y : Except Exception β} {state state' : ParseState}
    (hstate : state.calls = state'.calls ∧ state.nodes = state'.nodes)
    (h : Agrees Exception.SameVerdict Q x y) :
    Accompanies (liftExcept x) state (liftExcept y) state' fun a b => x = .ok a ∧ y = .ok b := by
  cases h with
  | ok _ => exact Accompanies.pure hstate ⟨rfl, rfl⟩
  | error hverdict => exact Tracks.throw hverdict

theorem accompanies_parseDocument (h : input.Shown input') :
    Accompanies (parseDocument input origin limits) {} (parseDocument input' origin' limits) {}
      (Matched BothOneBased) := by
  unfold parseDocument
  refine (accompanies_readTree h _).bind fun root root' after after' hafter hroot => ?_
  refine (accompanies_liftExcept hafter (agrees_validate.1 root (ascii "$") root' hroot)).bind ?_
  rintro _ _ last last' hlast ⟨hvalid, hvalid'⟩
  exact Accompanies.pure hlast
    ⟨hroot, validateTree_eq_ok_iff.mp hvalid, validateTree_eq_ok_iff.mp hvalid'⟩

/-- Both documents are rejected with one verdict, or read as trees that are the same but for their
marks. -/
theorem agrees_documentOutcome (h : input.Shown input') :
    Agrees Exception.SameVerdict (Matched BothOneBased) (documentOutcome input origin limits)
      (documentOutcome input' origin' limits) := by
  have hparse : Accompanies (parseDocument input origin limits) {}
    (parseDocument input' origin' limits) {} (Matched BothOneBased) := accompanies_parseDocument h
  unfold Accompanies Tracks at hparse
  unfold documentOutcome runDocument
  cases hleft : parseDocument input origin limits {} with
  | ok root after =>
      cases hright : parseDocument input' origin' limits {} with
      | ok root' after' =>
          rw [hleft, hright] at hparse
          exact Agrees.ok hparse.2
      | error exception' after' =>
          rw [hleft, hright] at hparse
          exact hparse.elim
  | error exception after =>
      cases hright : parseDocument input' origin' limits {} with
      | ok root' after' =>
          rw [hleft, hright] at hparse
          exact hparse.elim
      | error exception' after' =>
          rw [hleft, hright] at hparse
          exact Agrees.error (hparse.resolve_left not_false)

/-! ### Relocated declarations -/

/-- Acceptance that does not tell two calls apart relates how the calls end. -/
theorem agrees_of_accepted {α : Type} {Q : α → α → Prop} {call call' : Except CoreError α}
    (haccepted : Accepted call ↔ Accepted call')
    (h : ∀ a a', call = .ok a → call' = .ok a' → Q a a') :
    Agrees (fun _ _ => True) Q call call' := by
  cases call with
  | ok a =>
      obtain ⟨a', ha'⟩ := haccepted.mp ⟨a, rfl⟩
      rw [ha']
      exact Agrees.ok (h a a' rfl ha')
  | error failed =>
      cases call' with
      | ok a' =>
          obtain ⟨a, ha⟩ := haccepted.mpr ⟨a', rfl⟩
          cases ha
      | error failed' => exact Agrees.error trivial

/-- Two runs of one parser over a relocatable `libpkgsource`, compared up to places. -/
def Relocatable.correspondence (hcore : Relocatable core) :
    Correspondence core context context' where
  Mark := BothOneBased
  Failed _ _ := True
  Thrown := Exception.SameVerdict
  Site := SiteRelocated core
  Requirement := RequirementUpTo core (SiteRelocated core)
  Member := MemberUpTo core (SiteRelocated core)
  Profile := ProfileUpTo core (SiteRelocated core)
  Recipe := RecipeUpTo core (SiteRelocated core)
  failed_refl _ := trivial
  failure _ _ _ _ _ _ := sameVerdict_failure _ _ _ _ _ _
  rejection _ _ _ _ _ _ _ := sameVerdict_failure _ _ _ _ _ _
  escape _ _ _ := trivial
  site path _ _ hmarks :=
    agrees_of_accepted
      (hcore.provenance _ _ _ _ _ _ _ hmarks.1.1 hmarks.1.2 hmarks.2.1 hmarks.2.2)
      fun _ _ hsite hsite' => ⟨path, _, _, _, _, _, _, hsite, hsite'⟩
  requirement scope subject site site' hsite :=
    agrees_of_accepted (hcore.requirement scope subject site site' hsite)
      fun _ _ hleft hright => ⟨scope, subject, site, site', hsite, hleft, hright⟩
  member subject site site' hsite :=
    agrees_of_accepted (hcore.member subject site site' hsite)
      fun _ _ hleft hright => ⟨subject, site, site', hsite, hleft, hright⟩
  profile reference site site' members members' hsite hmembers :=
    agrees_of_accepted (hcore.profile reference site site' members members' hsite hmembers)
      fun _ _ hleft hright =>
        ⟨reference, site, site', members, members', hsite, hmembers, hleft, hright⟩
  recipe release metadata sources build requirements requirements' lifecycle architectures site
      site' check hrequirements hsite :=
    agrees_of_accepted
      (hcore.recipe _ _ _ _ _ _ _ _ _ _ check hrequirements hsite)
      fun _ _ hleft hright => ⟨release, metadata, sources, build, requirements, requirements',
        lifecycle, architectures, site, site', check, hrequirements, hsite, hleft, hright⟩

/-- **Presentation.** Over a relocatable `libpkgsource`, two runs of an entry point under the same
limits and in the same evaluation order, on inputs of one length whose events agree but for marks,
label and the spelling of permitted tags, both return declarations that differ at most in the label,
line and column of their provenances, or both throw with the same category and path. -/
theorem presentation_irrelevant (core : Core) (context context' : Context)
    (order : EvaluationOrder) (input input' : Input) (limits : ParseLimits)
    (hcore : Relocatable core) (hinputs : input.Restyled input')
    (hmarks : ∀ call event, input.provider call = .ok event → event.mark.OneBased)
    (hmarks' : ∀ call event, input'.provider call = .ok event → event.mark.OneBased) :
    Agrees Exception.SameVerdict (RecipeUpTo core (SiteRelocated core))
      (parseRecipeYaml core context order input limits)
      (parseRecipeYaml core context' order input' limits) ∧
    Agrees Exception.SameVerdict (List.Forall₂ (ProfileUpTo core (SiteRelocated core)))
      (parseProfilesYaml core context input limits)
      (parseProfilesYaml core context' input' limits) := by
  have hshown : input.Shown input' := ⟨hinputs, hmarks, hmarks'⟩
  constructor
  · refine (agrees_documentOutcome hshown).bind fun root root' _ _ hroot => ?_
    exact agrees_recipeValue hcore.correspondence hroot order
  · refine (agrees_documentOutcome hshown).bind fun root root' _ _ hroot => ?_
    exact agrees_profilesValue hcore.correspondence hroot

theorem relocatable_guarded : Relocatable Core.guarded where
  provenance path document line column document' line' column' hline hcolumn hline' hcolumn' := by
    have haccepted : ∀ document line column, 1 ≤ line → 1 ≤ column →
        (Accepted (Core.guarded.declarationProvenance document path line column) ↔
          path.all schematicByte = true) := by
      intro document line column hline hcolumn
      refine (dependable_guarded.provenance document path line column).trans ?_
      rw [List.all_eq_true]
      exact ⟨fun h => h.2.2, fun h => ⟨hline, hcolumn, h⟩⟩
    rw [haccepted document line column hline hcolumn,
      haccepted document' line' column' hline' hcolumn']
  requirement _ _ _ _ _ := Iff.rfl
  member _ _ _ _ := Iff.rfl
  profile _ _ _ _ _ _ _ := Iff.rfl
  recipe _ _ _ _ _ _ _ _ _ _ _ _ _ := Iff.rfl

theorem Exception.SameVerdict.refl (exception : Exception) : exception.SameVerdict exception := by
  cases exception <;> simp [Exception.SameVerdict]

/-- An event at another mark, tagged as a string if it is a scalar. -/
def YamlEvent.retagged (event : YamlEvent) : YamlEvent :=
  { event with
    mark := ⟨7, 9⟩
    tag := if event.kind = .scalar then ascii "tag:yaml.org,2002:str" else event.tag }

def Input.retagged (input : Input) : Input :=
  ⟨input.byteLength, fun call => (input.provider call).map YamlEvent.retagged⟩

theorem YamlEvent.restyled_retagged {event : YamlEvent} (h : event.tag = []) :
    event.Restyled event.retagged := by
  refine ⟨rfl, fun _ => rfl, Iff.rfl, rfl, ?_⟩
  by_cases hkind : event.kind = .scalar
  · have htag : event.retagged.tag = ascii "tag:yaml.org,2002:str" := if_pos hkind
    refine Or.inr ⟨.scalar, by rw [hkind]; rfl, Or.inl h, Or.inr ?_⟩
    rw [htag]
    exact List.mem_cons_self
  · exact Or.inl (if_neg hkind).symm

theorem Input.restyled_retagged {input : Input}
    (h : ∀ call event, input.provider call = .ok event → event.tag = []) :
    input.Restyled input.retagged := by
  refine ⟨rfl, fun call => ?_⟩
  have hcall := h call
  change Agrees _ _ (input.provider call) ((input.provider call).map YamlEvent.retagged)
  cases hprovider : input.provider call with
  | error failed => exact Agrees.error (Exception.SameVerdict.refl _)
  | ok event => exact Agrees.ok (YamlEvent.restyled_retagged (hcall event hprovider))

theorem oneBased_retagged {input : Input} (call : Nat) (event : YamlEvent)
    (h : input.retagged.provider call = .ok event) : event.mark.OneBased := by
  change (input.provider call).map YamlEvent.retagged = .ok event at h
  cases hprovider : input.provider call with
  | error failed =>
      rw [hprovider] at h
      cases h
  | ok found =>
      rw [hprovider] at h
      have hmark : event.mark = ⟨7, 9⟩ := by rw [← Except.ok.inj h, YamlEvent.retagged]
      rw [hmark]
      exact ⟨by decide, by decide⟩

theorem presentation_irrelevant_retagged :
    Agrees Exception.SameVerdict
      (List.Forall₂ (ProfileUpTo Core.guarded (SiteRelocated Core.guarded)))
      (parseProfilesYaml Core.guarded ⟨⟨ascii "profiles.yaml"⟩, false⟩
        (.spelling 120 smallProfiles) {})
      (parseProfilesYaml Core.guarded ⟨⟨ascii "copy.yaml"⟩, false⟩
        (Input.spelling 120 smallProfiles).retagged {}) :=
  (presentation_irrelevant Core.guarded ⟨⟨ascii "profiles.yaml"⟩, false⟩
    ⟨⟨ascii "copy.yaml"⟩, false⟩ .textual (.spelling 120 smallProfiles)
    (Input.spelling 120 smallProfiles).retagged {} relocatable_guarded
    (Input.restyled_retagged (forall_spelling (by decide)))
    (forall_spelling (by unfold SourceMark.OneBased; decide)) oneBased_retagged).2

end PkgsourceYaml
