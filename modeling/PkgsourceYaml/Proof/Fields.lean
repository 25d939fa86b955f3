import PkgsourceYaml.Fields
import PkgsourceYaml.Lookup
import PkgsourceYaml.Library.Throwing
import Mathlib.Data.List.Forall2

/-!
# What the field readers return

On a valid tree every reader of `document.cpp` returns exactly what the lookup vocabulary says, in a
checked context as in an unchecked one.
-/

namespace PkgsourceYaml

open Throwing Pairing

variable {core : Core} {context : Context}

@[simp] theorem expect_eq_ok {kind expected : NodeKind} (h : kind = expected) :
    context.expect kind expected = .ok () := by
  rw [Context.expect, if_neg (fun hne => hne.2 h)]
  rfl

theorem requireKind_eq_ok_iff {value found : Node} {expected : NodeKind} {path name : Bytes} :
    requireKind context value expected path name = .ok found ↔
      value.kind = expected ∧ value = found := by
  rw [requireKind, Context.fail, ite_throw_eq_ok, not_not, pure_eq_ok]

theorem findKey_eq {node : Node} (hvalid : node.Valid) (hkind : node.kind = .mapping)
    (key : Bytes) : findKey context node key = .ok (node.field? key) := by
  have hsearch : (∀ pair ∈ node.pairs, pair.1.kind = .scalar) →
      findKey.search context key node.children = .ok (node.field? key) := by
    rw [Node.field?_eq hkind, Node.pairs]
    refine even_induction (motive := fun list => (∀ pair ∈ pairs list, pair.1.kind = .scalar) →
      findKey.search context key list =
        .ok (((pairs list).find? (·.1.scalar = key)).map Prod.snd)) ?_ ?_ (hvalid.even hkind)
    · exact fun _ => rfl
    · intro candidate value rest _ ih hscalar
      have hfirst : candidate.kind = .scalar := hscalar (candidate, value) (by simp)
      have hrest := ih fun pair hpair => hscalar pair (by simp [hpair])
      rw [findKey.search, expect_eq_ok hfirst]
      by_cases heq : candidate.scalar = key
      · simp [heq, bind, Except.bind, pure, Except.pure]
      · simp [heq, bind, Except.bind, hrest]
  rw [findKey, expect_eq_ok hkind]
  exact hsearch (hvalid.admitted hkind).scalar

theorem findKey_eq_ok_iff {node : Node} {key : Bytes} {found : Option Node} (hvalid : node.Valid)
    (hkind : node.kind = .mapping) :
    findKey context node key = .ok found ↔ node.field? key = found := by
  rw [findKey_eq hvalid hkind, Except.ok.injEq]

theorem requiredKey_eq {node : Node} (hvalid : node.Valid) (hkind : node.kind = .mapping)
    (key path : Bytes) :
    requiredKey context node key path =
      match node.field? key with
      | some value => .ok value
      | none => .error (failure .missingKey context.origin (childPath path key) node.mark
          (ascii "missing required key: " ++ key)) := by
  rw [requiredKey, findKey_eq hvalid hkind]
  cases node.field? key <;> rfl

theorem requiredKey_eq_ok_iff {node value : Node} {key path : Bytes} (hvalid : node.Valid)
    (hkind : node.kind = .mapping) :
    requiredKey context node key path = .ok value ↔ node.field? key = some value := by
  rw [requiredKey_eq hvalid hkind]
  cases node.field? key <;> simp

theorem checkKey_eq {path : Bytes} {allowed : List Bytes} {key : Node} (hkey : key.kind = .scalar) :
    allowKeys.checkKey context path allowed key =
      if key.scalar ∈ allowed then .ok ()
      else .error (failure .unknownKey context.origin (childPath path key.scalar) key.mark
        (ascii "unknown key: " ++ key.scalar)) := by
  rw [allowKeys.checkKey, expect_eq_ok hkey]
  by_cases hmem : key.scalar ∈ allowed
  · simp [hmem, bind, Except.bind, pure, Except.pure]
  · simp [hmem, bind, Except.bind, Context.fail, throw, throwThe, MonadExceptOf.throw]

theorem allowKeys_eq_ok_iff {node : Node} {path : Bytes} {allowed : List Bytes}
    (hvalid : node.Valid) :
    allowKeys context node path allowed = .ok () ↔ node.HasKeys allowed := by
  have hcheck : node.kind = .mapping →
      (allowKeys.check context path allowed node.children = .ok () ↔
        ∀ pair ∈ node.pairs, pair.1.scalar ∈ allowed) := by
    intro hkind
    have hscalar := (hvalid.admitted hkind).scalar
    unfold Node.pairs at hscalar ⊢
    revert hscalar
    refine even_induction (motive := fun list => (∀ pair ∈ pairs list, pair.1.kind = .scalar) →
      (allowKeys.check context path allowed list = .ok () ↔
        ∀ pair ∈ pairs list, pair.1.scalar ∈ allowed)) ?_ ?_ (hvalid.even hkind)
    · intro _
      simp [allowKeys.check, pure_eq_ok]
    · intro key value rest _ ih hscalar
      have hfirst : key.kind = .scalar := hscalar (key, value) (by simp)
      have hrest := ih fun pair hpair => hscalar pair (by simp [hpair])
      rw [allowKeys.check, checkKey_eq hfirst, pairs_cons_cons, List.forall_mem_cons, ← hrest]
      by_cases hmem : key.scalar ∈ allowed
      · simp [hmem, bind, Except.bind]
      · simp [hmem, bind, Except.bind]
  rw [allowKeys, bind_eq_ok, Node.HasKeys]
  constructor
  · rintro ⟨found, hfound, h⟩
    obtain ⟨hkind, rfl⟩ := requireKind_eq_ok_iff.mp hfound
    rw [expect_eq_ok hkind] at h
    exact ⟨hkind, (hcheck hkind).mp h⟩
  · rintro ⟨hkind, hkeys⟩
    refine ⟨node, requireKind_eq_ok_iff.mpr ⟨hkind, rfl⟩, ?_⟩
    rw [expect_eq_ok hkind]
    exact (hcheck hkind).mpr hkeys

theorem scalarValue_eq_ok_iff {value : Node} {path text : Bytes} :
    scalarValue context value path = .ok text ↔ value.IsText text := by
  rw [scalarValue, bind_eq_ok, Node.IsText]
  constructor
  · rintro ⟨found, hfound, htext⟩
    obtain ⟨hkind, rfl⟩ := requireKind_eq_ok_iff.mp hfound
    exact ⟨hkind, pure_eq_ok.mp htext⟩
  · rintro ⟨hkind, htext⟩
    exact ⟨value, requireKind_eq_ok_iff.mpr ⟨hkind, rfl⟩, pure_eq_ok.mpr htext⟩

theorem sequenceValue_eq_ok_iff {value : Node} {path : Bytes} {entries : List Node} :
    sequenceValue context value path = .ok entries ↔
      value.kind = .sequence ∧ value.children = entries := by
  rw [sequenceValue, bind_eq_ok]
  constructor
  · rintro ⟨found, hfound, hentries⟩
    obtain ⟨hkind, rfl⟩ := requireKind_eq_ok_iff.mp hfound
    exact ⟨hkind, pure_eq_ok.mp hentries⟩
  · rintro ⟨hkind, hentries⟩
    exact ⟨value, requireKind_eq_ok_iff.mpr ⟨hkind, rfl⟩, pure_eq_ok.mpr hentries⟩

theorem semanticValue_eq_ok_iff {α : Type} {path : Bytes} {value : Node}
    {function : Except CoreError α} {a : α} :
    semanticValue context path value function = .ok a ↔ function = .ok a := by
  cases function with
  | ok found => rw [semanticValue, pure_eq_ok, Except.ok.injEq]
  | error failed => simp [semanticValue, Context.fail, throw, throwThe, MonadExceptOf.throw]

theorem propagate_eq_ok_iff {α : Type} {call : Except CoreError α} {a : α} :
    propagate call = .ok a ↔ call = .ok a := by
  cases call <;> simp [propagate]

theorem eachItem_eq_ok_iff {α : Type} {path : Bytes} {decode : Bytes → Node → Except Exception α}
    {entries : List Node} {index : Nat} {values : List α} :
    eachItem path decode entries index = .ok values ↔
      List.Forall₂ (fun entry value => decode (indexed path entry.2) entry.1 = .ok value)
        (entries.zipIdx index) values := by
  induction entries generalizing index values with
  | nil => rw [eachItem, pure_eq_ok, List.zipIdx_nil, List.forall₂_nil_left_iff, eq_comm]
  | cons entry rest ih =>
      rw [eachItem, bind_eq_ok, List.zipIdx_cons, List.forall₂_cons_left_iff]
      constructor
      · rintro ⟨value, hvalue, h⟩
        obtain ⟨others, hothers, h⟩ := bind_eq_ok.mp h
        exact ⟨value, others, hvalue, ih.mp hothers, (pure_eq_ok.mp h).symm⟩
      · rintro ⟨value, others, hvalue, hothers, rfl⟩
        exact ⟨value, hvalue, bind_eq_ok.mpr ⟨others, ih.mpr hothers, pure_eq_ok.mpr rfl⟩⟩

theorem eachPair_eq_ok_iff {α : Type} {node : Node} {decode : Node → Node → Except Exception α}
    {values : List α} (hvalid : node.Valid) (hkind : node.kind = .mapping) :
    eachPair context node decode = .ok values ↔
      List.Forall₂ (fun pair value => decode pair.1 pair.2 = .ok value) node.pairs values := by
  have hscalar := (hvalid.admitted hkind).scalar
  rw [eachPair, expect_eq_ok hkind]
  change eachPair.loop context decode node.children = .ok values ↔ _
  unfold Node.pairs at hscalar ⊢
  revert hscalar values
  refine even_induction (motive := fun list => ∀ {values : List α},
    (∀ pair ∈ pairs list, pair.1.kind = .scalar) →
    (eachPair.loop context decode list = .ok values ↔
      List.Forall₂ (fun pair value => decode pair.1 pair.2 = .ok value) (pairs list) values))
    ?_ ?_ (hvalid.even hkind)
  · intro values _
    rw [eachPair.loop, pure_eq_ok, pairs_nil, List.forall₂_nil_left_iff, eq_comm]
  · intro key value rest _ ih values hscalar
    have hfirst : key.kind = .scalar := hscalar (key, value) (by simp)
    have hrest := fun {values : List α} =>
      @ih values fun pair hpair => hscalar pair (by simp [hpair])
    rw [eachPair.loop, expect_eq_ok hfirst, pairs_cons_cons, List.forall₂_cons_left_iff]
    change (decode key value >>= fun decoded => _) = _ ↔ _
    rw [bind_eq_ok]
    constructor
    · rintro ⟨decoded, hdecoded, h⟩
      obtain ⟨others, hothers, h⟩ := bind_eq_ok.mp h
      exact ⟨decoded, others, hdecoded, hrest.mp hothers, (pure_eq_ok.mp h).symm⟩
    · rintro ⟨decoded, others, hdecoded, hothers, rfl⟩
      exact ⟨decoded, hdecoded, bind_eq_ok.mpr ⟨others, hrest.mpr hothers, pure_eq_ok.mpr rfl⟩⟩

end PkgsourceYaml
