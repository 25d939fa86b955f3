import PkgsourceYaml.Tree
import PkgsourceYaml.Library.Throwing

/-!
# What one step of the reader can do

One rule for each primitive of the document layer: what `next` returns and leaves behind, and when
`admitNode` admits a node or rejects it. Every property of a whole run is proved from these.
-/

namespace PkgsourceYaml

open Throwing

variable {input : Input} {origin : SourceOrigin} {limits : ParseLimits}

def ParseState.admitted (state : ParseState) (depth : Nat) (scalar : Bytes) : ParseState :=
  ((state.entered depth).accounted).retained scalar

section

variable (state : ParseState) (depth : Nat) (scalar : Bytes)

@[simp] theorem ParseState.calls_admitted : (state.admitted depth scalar).calls = state.calls := rfl
@[simp] theorem ParseState.nodes_admitted :
    (state.admitted depth scalar).nodes = state.nodes + 1 := rfl
@[simp] theorem ParseState.trace_admitted :
    (state.admitted depth scalar).trace = .retain scalar :: .enter depth :: state.trace := rfl

end

theorem meets_next {state : ParseState} {Q : YamlEvent → ParseState → Prop}
    {E : Exception → ParseState → Prop}
    (hok : ∀ event, nextResult input origin limits state.calls = .ok event →
      Q event (state.pulled (.ok event)))
    (herror : ∀ exception, nextResult input origin limits state.calls = .error exception →
      E exception (state.pulled (.error exception))) :
    Meets (next input origin limits) state Q E := by
  unfold Meets next
  cases hresult : nextResult input origin limits state.calls with
  | ok event => exact hok event hresult
  | error exception => exact herror exception hresult

theorem meets_fail {α : Type} {code : YamlErrorCode} {path : Bytes} {mark : SourceMark}
    {message : String} {state : ParseState} {Q : α → ParseState → Prop}
    {E : Exception → ParseState → Prop}
    (h : E (failure code origin path mark (ascii message)) state) :
    Meets (fail origin code path mark message : ParseM α) state Q E :=
  Meets.throw h

theorem nextResult_eq_ok_iff {index : Nat} {event : YamlEvent} :
    nextResult input origin limits index = .ok event ↔
      input.provider index = .ok event ∧
        (event.kind = .scalar → event.value.length ≤ limits.maximumScalarBytes) := by
  unfold nextResult
  cases hprovider : input.provider index with
  | error failed => simp
  | ok found =>
      by_cases hlong : found.kind = .scalar ∧ limits.maximumScalarBytes < found.value.length
      · simp only [if_pos hlong, Except.ok.injEq, reduceCtorEq, false_iff, not_and]
        rintro rfl
        simpa [hlong.1] using hlong.2
      · simp only [if_neg hlong, Except.ok.injEq, iff_self_and]
        rintro rfl hscalar
        exact Nat.le_of_not_lt fun hlt => hlong ⟨hscalar, hlt⟩

theorem meets_next_of_yields {event : YamlEvent} {state : ParseState}
    {Q : YamlEvent → ParseState → Prop} {E : Exception → ParseState → Prop}
    (hprovider : input.provider state.calls = .ok event)
    (hscalar : event.kind = .scalar → event.value.length ≤ limits.maximumScalarBytes)
    (h : Q event (state.pulled (.ok event))) : Meets (next input origin limits) state Q E := by
  have hresult : nextResult input origin limits state.calls = .ok event :=
    nextResult_eq_ok_iff.mpr ⟨hprovider, hscalar⟩
  refine meets_next (fun found hfound => ?_) fun exception herror => ?_
  · rw [hresult] at hfound
    obtain rfl := Except.ok.inj hfound
    exact h
  · rw [hresult] at herror
    exact absurd herror (by simp)

/-- Why `parse_node` rejects the first event of a node, with the category it reports. -/
inductive Rejects (limits : ParseLimits) (first : YamlEvent) (depth nodes : Nat) :
    YamlErrorCode → Prop where
  | isAlias (h : first.kind = .alias) : Rejects limits first depth nodes .unsupportedFeature
  | noNode (h : first.kind.nodeKind? = none) : Rejects limits first depth nodes .invalidDocument
  | anchor (h : first.anchor ≠ []) : Rejects limits first depth nodes .unsupportedFeature
  | tag (kind : NodeKind) (hkind : first.kind.nodeKind? = some kind)
      (h : permittedTag kind first.tag = false) :
      Rejects limits first depth nodes .unsupportedFeature
  | depth (h : limits.maximumDepth < depth) : Rejects limits first depth nodes .resourceLimit
  | nodes (h : limits.maximumNodes ≤ nodes) : Rejects limits first depth nodes .resourceLimit

/-- A node that opens cleanly within the ceilings is rejected for nothing. -/
theorem Rejects.elim {kind : NodeKind} {first : YamlEvent} {depth nodes : Nat}
    {code : YamlErrorCode} (h : Rejects limits first depth nodes code) (hopens : Opens kind first)
    (hdepth : depth ≤ limits.maximumDepth) (hnodes : nodes < limits.maximumNodes) : False := by
  have hkind := hopens.node
  cases h with
  | isAlias h => simp [h, YamlEventKind.nodeKind?] at hkind
  | noNode h => simp [h] at hkind
  | anchor h => exact h hopens.anchor
  | tag found hfound h =>
      rw [hkind, Option.some.injEq] at hfound
      subst hfound
      simp [hopens.tag] at h
  | depth h => omega
  | nodes h => omega

def retainedScalar (kind : NodeKind) (first : YamlEvent) : Bytes :=
  if kind = .scalar then first.value else []

theorem meets_admitNode {first : YamlEvent} {path : Bytes} {depth : Nat} {state : ParseState}
    {Q : NodeKind → ParseState → Prop} {E : Exception → ParseState → Prop}
    (hok : ∀ kind, Opens kind first → depth ≤ limits.maximumDepth →
      state.nodes < limits.maximumNodes →
      Q kind (state.admitted depth (retainedScalar kind first)))
    (herror : ∀ code message, Rejects limits first depth state.nodes code →
      E (failure code origin path first.mark (ascii message)) (state.entered depth)) :
    Meets (admitNode origin limits first path depth) state Q E := by
  unfold admitNode
  refine Meets.bind (Meets.modify ?_)
  apply Meets.ite (fun halias => meets_fail (herror _ _ (.isAlias halias)))
  intro _
  cases hkind : first.kind.nodeKind? with
  | none => exact meets_fail (herror _ _ (.noNode hkind))
  | some kind =>
      apply Meets.ite (fun hanchor => meets_fail (herror _ _ (.anchor hanchor)))
      intro hanchor
      apply Meets.ite (fun htag => meets_fail (herror _ _ (.tag kind hkind htag)))
      intro htag
      apply Meets.bind
      unfold accountNode
      apply Meets.ite (fun hdepth => meets_fail (herror _ _ (.depth hdepth)))
      intro hdepth
      apply Meets.bind
      apply Meets.ite (fun hnodes => meets_fail (herror _ _ (.nodes hnodes)))
      intro hnodes
      have hopens : Opens kind first :=
        ⟨hkind, not_not.mp hanchor, by simpa using htag⟩
      exact Meets.modify (Meets.bind (Meets.modify (Meets.pure
        (hok kind hopens (Nat.le_of_not_lt hdepth) (Nat.lt_of_not_le hnodes)))))

end PkgsourceYaml
