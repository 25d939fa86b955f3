import PkgsourceYaml.Proof.Steps

/-!
# Two runs under two sets of limits

The same input, read under two sets of limits and with two recursion bounds: the run under the lower
ones follows the other step by step until it gives up at a ceiling.
-/

namespace PkgsourceYaml

open Throwing

variable {input : Input} {origin : SourceOrigin} {limits wider : ParseLimits}

/-- How the run under the lower limits may leave the other one: its recursion bound runs out, or,
where the limits do differ, a ceiling is exceeded. -/
def GivesUp (limits wider : ParseLimits) (exception : Exception) : Prop :=
  exception = .fuel ∨ (limits ≠ wider ∧ exception.IsResourceLimit)

abbrev Follows {α : Type} (limits wider : ParseLimits) (left right : ParseM α)
    (state : ParseState) : Prop :=
  Tracks (GivesUp limits wider) (fun e after e' after' => e = e' ∧ after = after') left state right
    state (fun a after b after' => a = b ∧ after = after')

theorem Follows.fail {α : Type} {code : YamlErrorCode} {path : Bytes} {mark : SourceMark}
    {message : String} {state : ParseState} :
    Follows limits wider (fail origin code path mark message : ParseM α)
      (PkgsourceYaml.fail origin code path mark message) state :=
  Tracks.throw ⟨rfl, rfl⟩

theorem Follows.pure {α : Type} {a : α} {state : ParseState} :
    Follows limits wider (pure a : ParseM α) (Pure.pure a) state :=
  Tracks.pure ⟨rfl, rfl⟩

theorem Follows.bind {α β : Type} {left right : ParseM α} {f g : α → ParseM β}
    {state : ParseState} (h : Follows limits wider left right state)
    (hnext : ∀ a after, Follows limits wider (f a) (g a) after) :
    Follows limits wider (left >>= f) (right >>= g) state := by
  refine Tracks.bind (Tracks.mono h ?_)
  rintro a after _ _ ⟨rfl, rfl⟩
  exact hnext a after

/-- A ceiling that is exceeded under the wider limits is exceeded under the lower ones. Where only
the lower ones are exceeded, the limits differ. -/
theorem Follows.ceiling {α : Type} {c d : Prop} [Decidable c] [Decidable d] {path : Bytes}
    {mark : SourceMark} {message : String} {left right : ParseM α} {state : ParseState}
    (hcd : d → c) (hsame : limits = wider → (c → d))
    (hrest : ¬c → ¬d → Follows limits wider left right state) :
    Follows limits wider
      (if c then PkgsourceYaml.fail origin .resourceLimit path mark message else left)
      (if d then PkgsourceYaml.fail origin .resourceLimit path mark message else right) state := by
  by_cases hd : d
  · rw [if_pos hd, if_pos (hcd hd)]
    exact Follows.fail
  · rw [if_neg hd]
    by_cases hc : c
    · rw [if_pos hc]
      exact Tracks.abandon
        (Or.inr ⟨fun heq => hd (hsame heq hc), isResourceLimit_failure origin path mark _⟩)
    · rw [if_neg hc]
      exact hrest hc hd

theorem Follows.modify {f : ParseState → ParseState} {state : ParseState} :
    Follows limits wider (modify f) (modify f) state :=
  Tracks.modify ⟨rfl, rfl⟩

theorem follows_next (hlimits : limits.Below wider) (state : ParseState) :
    Follows limits wider (next input origin limits) (next input origin wider) state := by
  have hscalar := hlimits.scalarBytes
  unfold Follows Tracks next nextResult
  cases hprovider : input.provider state.calls with
  | error failed => exact Or.inr ⟨rfl, rfl⟩
  | ok event =>
      by_cases hwider : event.kind = .scalar ∧ wider.maximumScalarBytes < event.value.length
      · have hlow : event.kind = .scalar ∧ limits.maximumScalarBytes < event.value.length :=
          ⟨hwider.1, by omega⟩
        simp only [if_pos hwider, if_pos hlow]
        exact Or.inr ⟨trivial, trivial⟩
      · by_cases hlow : event.kind = .scalar ∧ limits.maximumScalarBytes < event.value.length
        · simp only [if_neg hwider, if_pos hlow]
          refine Or.inr ⟨?_, isResourceLimit_failure _ _ _ _⟩
          rintro rfl
          exact hwider hlow
        · simp only [if_neg hwider, if_neg hlow]
          exact ⟨trivial, trivial⟩

theorem follows_accountNode (hlimits : limits.Below wider) (path : Bytes) (mark : SourceMark)
    (depth : Nat) (state : ParseState) :
    Follows limits wider (accountNode origin limits path mark depth)
      (accountNode origin wider path mark depth) state := by
  have hdepth := hlimits.depth
  have hnodes := hlimits.nodes
  unfold accountNode
  apply Follows.ceiling (fun h => by omega) (fun heq h => heq ▸ h)
  intro _ _
  have hget : Follows limits wider (get : ParseM ParseState) get state := ⟨rfl, rfl⟩
  apply Follows.bind hget
  intro found after
  exact Follows.ceiling (fun h => by omega) (fun heq h => heq ▸ h) fun _ _ => Follows.modify

theorem follows_admitNode (hlimits : limits.Below wider) (first : YamlEvent) (path : Bytes)
    (depth : Nat) (state : ParseState) :
    Follows limits wider (admitNode origin limits first path depth)
      (admitNode origin wider first path depth) state := by
  unfold admitNode
  apply Follows.bind Follows.modify
  intro _ entered
  apply Tracks.ite Iff.rfl (fun _ => Follows.fail)
  intro _
  cases first.kind.nodeKind? with
  | none => exact Follows.fail
  | some kind =>
      apply Tracks.ite Iff.rfl (fun _ => Follows.fail)
      intro _
      apply Tracks.ite Iff.rfl (fun _ => Follows.fail)
      intro _
      apply Follows.bind (follows_accountNode hlimits path first.mark depth entered)
      intro _ _
      exact Follows.bind Follows.modify fun _ _ => Follows.pure

/-- The run under the lower limits and the smaller recursion bound follows the other run. -/
theorem parse_follows (hlimits : limits.Below wider) :
    (∀ fuel first path depth, ∀ larger state, fuel ≤ larger →
      Follows limits wider (parseNode input origin limits fuel first path depth)
        (parseNode input origin wider larger first path depth) state) ∧
    ∀ fuel kind path depth index, ∀ larger state, fuel ≤ larger →
      Follows limits wider (parseChildren input origin limits fuel kind path depth index)
        (parseChildren input origin wider larger kind path depth index) state := by
  apply parseNode.mutual_induct
  · intro first path depth larger state _
    rw [parseNode]
    exact Tracks.abandon (Or.inl rfl)
  · intro fuel first path depth ih larger state hlarger
    obtain ⟨larger, rfl⟩ : ∃ rest, larger = rest + 1 := ⟨larger - 1, by omega⟩
    rw [Nat.succ_eq_add_one, parseNode, parseNode]
    apply Follows.bind (follows_admitNode hlimits first path depth state)
    intro kind admitted
    apply Tracks.ite Iff.rfl (fun _ => Follows.pure)
    intro _
    apply Follows.bind (ih kind larger admitted (by omega))
    intro children after
    exact Tracks.ite Iff.rfl (fun _ => Follows.fail) fun _ => Follows.pure
  · intro kind path depth index larger state _
    rw [parseChildren]
    exact Tracks.abandon (Or.inl rfl)
  · intro fuel kind path depth index ihNode ihRest larger state hlarger
    obtain ⟨larger, rfl⟩ : ∃ rest, larger = rest + 1 := ⟨larger - 1, by omega⟩
    rw [Nat.succ_eq_add_one, parseChildren, parseChildren]
    apply Follows.bind (follows_next hlimits state)
    intro event pulled
    apply Tracks.ite Iff.rfl (fun _ => Follows.pure)
    intro _
    apply Tracks.ite Iff.rfl (fun _ => Follows.fail)
    intro _
    apply Follows.bind (ihNode event larger pulled (by omega))
    intro child middle
    apply Follows.bind (ihRest larger middle (by omega))
    intro rest after
    exact Follows.pure

theorem follows_readTree (hlimits : limits.Below wider) {fuel larger : Nat} (hfuel : fuel ≤ larger)
    (state : ParseState) :
    Follows limits wider (readTree input origin limits fuel) (readTree input origin wider larger)
      state := by
  have hbytes := hlimits.documentBytes
  unfold readTree
  apply Follows.ceiling (fun h => by omega) (fun heq h => heq ▸ h)
  intro _ _
  apply Follows.bind (follows_next hlimits state)
  intro streamStart _
  apply Tracks.ite Iff.rfl (fun _ => Follows.fail)
  intro _
  apply Follows.bind (follows_next hlimits _)
  intro documentStart _
  apply Tracks.ite Iff.rfl (fun _ => Follows.fail)
  intro _
  apply Tracks.ite Iff.rfl (fun _ => Follows.fail)
  intro _
  apply Follows.bind (follows_next hlimits _)
  intro first opened
  apply Tracks.ite Iff.rfl (fun _ => Follows.fail)
  intro _
  refine Follows.bind ((parse_follows hlimits).1 fuel first _ 1 larger opened hfuel)
    fun root after => ?_
  refine Follows.bind ?_ fun _ _ => Follows.pure
  unfold readTree.readEnd
  apply Follows.bind (follows_next hlimits after)
  intro documentEnd _
  apply Tracks.ite Iff.rfl (fun _ => Follows.fail)
  intro _
  apply Follows.bind (follows_next hlimits _)
  intro streamEnd _
  apply Tracks.ite Iff.rfl (fun _ => Follows.fail)
  intro _
  exact Tracks.ite Iff.rfl (fun _ => Follows.fail) fun _ => Follows.pure

theorem parseFuel_mono (hlimits : limits.Below wider) : parseFuel limits ≤ parseFuel wider := by
  have hnodes := hlimits.nodes
  unfold parseFuel
  omega

/-- `parse_document` under the lower limits follows `parse_document` under the wider ones. -/
theorem follows_parseDocument (hlimits : limits.Below wider) (state : ParseState) :
    Follows limits wider (parseDocument input origin limits) (parseDocument input origin wider)
      state := by
  unfold parseDocument
  apply Follows.bind (follows_readTree hlimits (parseFuel_mono hlimits) state)
  intro root after
  refine Follows.bind ?_ fun _ _ => Follows.pure
  cases validateTree origin root (ascii "$") with
  | ok _ => exact Follows.pure
  | error exception => exact Tracks.throw ⟨rfl, rfl⟩

end PkgsourceYaml
