import PkgsourceYaml.Schema
import PkgsourceYaml.Recipe
import PkgsourceYaml.Profiles
import PkgsourceYaml.Proof.RecipeGrammar

/-!
# Every diagnostic reports a fault

What each decoder throws is the report of a fault between its node and its schema, or an error that
`libpkgsource` raised where the parser does not guard it. The unguarded errors are a parameter here.
-/

namespace PkgsourceYaml

open Throwing Pairing

variable {core : Core} {context : Context} {Leak : Exception → Prop}

/-- The exception reports a fault below a node that is reached by `path`. -/
def Diagnosed (context : Context) (schema : Schema) (node : Node) (path : Bytes)
    (exception : Exception) : Prop :=
  ∃ position code mark message, FaultAt schema node position code mark ∧
    exception = failure code context.origin (renderFrom path position) mark message

/-- Whatever the computation throws is diagnosed or leaks. -/
abbrev Reports {α : Type} (Leak : Exception → Prop) (context : Context) (schema : Schema)
    (node : Node) (path : Bytes) (x : Except Exception α) : Prop :=
  Throws x fun exception => Diagnosed context schema node path exception ∨ Leak exception

section

variable {α : Type} {schema inner : Schema} {node child : Node} {path : Bytes}
  {x : Except Exception α}

theorem diagnosed_of_fault {suffix : List Segment} {code : YamlErrorCode} {mark : SourceMark}
    (h : Fault schema node suffix code mark) (message : Bytes) :
    Diagnosed context schema node path
      (failure code context.origin (renderFrom path suffix) mark message) :=
  ⟨suffix, code, mark, message, ⟨[], suffix, node, schema, rfl, rfl, rfl, h⟩, rfl⟩

/-- A fault of a child is a fault of its parent, one segment further down. -/
theorem Diagnosed.below {segment : Segment} {exception : Exception}
    (hnode : node.step? segment = some child) (hschema : schema.step? segment = some inner)
    (h : Diagnosed context inner child (segment.extend path) exception) :
    Diagnosed context schema node path exception := by
  obtain ⟨position, code, mark, message, ⟨parent, suffix, found, demanded, rfl, hat, hdemanded,
    hfault⟩, rfl⟩ := h
  refine ⟨segment :: (parent ++ suffix), code, mark, message,
    ⟨segment :: parent, suffix, found, demanded, rfl, ?_, ?_, hfault⟩, rfl⟩
  · rw [Node.at?, hnode]
    exact hat
  · rw [Schema.at?, hschema]
    exact hdemanded

theorem step?_key (hkind : node.kind = .mapping) (key : Bytes) :
    node.step? (.key key) = node.field? key := by
  rw [Node.step?, if_pos hkind]

theorem reports_fail (suffix : List Segment) {code : YamlErrorCode} {mark : SourceMark}
    {message : Bytes} (h : Fault schema node suffix code mark) :
    Reports Leak context schema node path
      (context.fail code (renderFrom path suffix) mark message : Except Exception α) :=
  Throws.throw (Or.inl (diagnosed_of_fault h message))

theorem Reports.below (segment : Segment) (hnode : node.step? segment = some child)
    (hschema : schema.step? segment = some inner)
    (h : Reports Leak context inner child (segment.extend path) x) :
    Reports Leak context schema node path x :=
  Throws.mono h fun _ => Or.imp_left (Diagnosed.below hnode hschema)

theorem Reports.field {key : Bytes} (hkind : node.kind = .mapping)
    (hfield : node.field? key = some child) (hschema : schema.step? (.key key) = some inner)
    (h : Reports Leak context inner child (childPath path key) x) :
    Reports Leak context schema node path x :=
  Reports.below (.key key) (by rw [step?_key hkind, hfield]) hschema h

theorem reports_requireKind {expected : NodeKind} {name : Bytes} (h : schema.kind = expected) :
    Reports Leak context schema node path (requireKind context node expected path name) := by
  unfold requireKind
  refine Throws.ite (fun hkind => ?_) fun _ => Throws.pure
  exact reports_fail [] (.wrongKind (h ▸ hkind))

theorem reports_scalarValue (h : schema.kind = .scalar) :
    Reports Leak context schema node path (scalarValue context node path) :=
  Throws.bind (reports_requireKind h) fun _ _ => Throws.pure

theorem reports_semanticValue {call : Except CoreError α}
    (h : ∀ failed, call = .error failed → Fault schema node [] .invalidValue node.mark) :
    Reports Leak context schema node path (semanticValue context path node call) := by
  cases hcall : call with
  | ok a => exact Throws.pure
  | error failed => exact reports_fail [] (h failed hcall)

theorem reports_propagate {call : Except CoreError α}
    (h : ∀ failed, call = .error failed → Leak (.core failed)) :
    Reports Leak context schema node path (propagate call) := by
  intro exception herror
  cases hcall : call with
  | ok a => simp [hcall, propagate] at herror
  | error failed =>
      rw [hcall] at herror
      obtain rfl := Except.error.inj herror
      exact Or.inr (h failed hcall)

theorem throws_findKey {E : Exception → Prop} {key : Bytes} (hvalid : node.Valid)
    (hkind : node.kind = .mapping) : Throws (findKey context node key) E := by
  intro exception herror
  rw [findKey_eq hvalid hkind] at herror
  cases herror

theorem reports_requiredKey {fields : List (Bytes × Presence × Schema)} {violated : Node → Prop}
    {key : Bytes} {value : Schema} (hvalid : node.Valid) (hkind : node.kind = .mapping)
    (hrequired : fields.find? (·.1 = key) = some (key, .required, value)) :
    Reports Leak context (.record fields violated) node path
      (requiredKey context node key path) := by
  rw [requiredKey_eq hvalid hkind]
  cases hfield : node.field? key with
  | some found => exact Throws.pure
  | none =>
      exact reports_fail [.key key]
        (.missingKey hkind (List.mem_of_find?_eq_some hrequired) hfield)

/-- On a mapping, the key check throws nothing but the report of a key that is not allowed. -/
theorem throws_allowKeys {E : Exception → Prop} {allowed : List Bytes} (hvalid : node.Valid)
    (hkind : node.kind = .mapping)
    (h : ∀ pair ∈ node.pairs, pair.1.scalar ∉ allowed → ∀ message,
      E (failure .unknownKey context.origin (childPath path pair.1.scalar) pair.1.mark message)) :
    Throws (allowKeys context node path allowed) E := by
  have hpairs : ∀ pair ∈ pairs node.children, pair.1.kind = .scalar ∧ pair ∈ node.pairs :=
    fun pair hpair => ⟨(hvalid.admitted hkind).scalar pair hpair, hpair⟩
  rw [allowKeys, requireKind_eq_ok_iff.mpr ⟨hkind, rfl⟩]
  change Throws (context.expect node.kind .mapping >>= fun _ =>
    allowKeys.check context path allowed node.children) E
  rw [expect_eq_ok hkind]
  change Throws (allowKeys.check context path allowed node.children) E
  revert hpairs
  refine even_induction (motive := fun list =>
    (∀ pair ∈ pairs list, pair.1.kind = .scalar ∧ pair ∈ node.pairs) →
    Throws (allowKeys.check context path allowed list) E) ?_ ?_ (hvalid.even hkind)
  · exact fun _ => Throws.pure
  · intro key value rest _ ih hpairs
    obtain ⟨hscalar, hmem⟩ := hpairs (key, value) (by simp)
    rw [allowKeys.check, checkKey_eq hscalar]
    refine Throws.bind (Throws.ite (fun _ => Throws.pure) fun hunknown => ?_)
      fun _ _ => ih fun pair hpair => hpairs pair (by simp [hpair])
    exact Throws.throw (h (key, value) hmem hunknown _)

theorem reports_allowKeys {fields : List (Bytes × Presence × Schema)} {violated : Node → Prop}
    {allowed : List Bytes} (hvalid : node.Valid) (hallowed : fields.map Prod.fst = allowed) :
    Reports Leak context (.record fields violated) node path
      (allowKeys context node path allowed) := by
  subst hallowed
  by_cases hkind : node.kind = .mapping
  · refine throws_allowKeys hvalid hkind fun pair hpair hunknown message => ?_
    exact Or.inl (diagnosed_of_fault (.unknownKey hkind hpair hunknown) message)
  · refine Throws.bind (reports_requireKind rfl) fun found hfound => ?_
    exact absurd (requireKind_eq_ok_iff.mp hfound).1 hkind

theorem reports_sequenceValue (h : schema.kind = .sequence) :
    Reports Leak context schema node path (sequenceValue context node path) :=
  Throws.bind (reports_requireKind h) fun _ _ => Throws.pure

theorem reports_eachItem {item : Schema} {decode : Bytes → Node → Except Exception α}
    (hkind : node.kind = .sequence)
    (hitem : ∀ index, ∀ entry ∈ node.children,
      Reports Leak context item entry (indexed path index) (decode (indexed path index) entry)) :
    Reports Leak context (.sequence item) node path (eachItem path decode node.children 0) := by
  have hloop : ∀ (rest : List Node) (index : Nat),
      (∀ offset entry, rest[offset]? = some entry → node.children[index + offset]? = some entry) →
      Reports Leak context (.sequence item) node path (eachItem path decode rest index) := by
    intro rest
    induction rest with
    | nil => exact fun _ _ => Throws.pure
    | cons entry rest ih =>
        intro index hrest
        have hentry : node.children[index]? = some entry := hrest 0 entry rfl
        refine Throws.bind ?_ fun _ _ => Throws.bind (ih (index + 1) fun offset other hother => ?_)
          fun _ _ => Throws.pure
        · refine Reports.below (.index index) ?_ rfl
            (hitem index entry (List.mem_of_getElem? hentry))
          rw [Node.step?, if_pos hkind, hentry]
        · rw [show index + 1 + offset = index + (offset + 1) by omega]
          exact hrest (offset + 1) other hother
  apply hloop node.children 0
  intro offset entry hentry
  rwa [Nat.zero_add]

theorem reports_items {item : Schema} {decode : Bytes → Node → Except Exception α}
    (hitem : node.kind = .sequence → ∀ index, ∀ entry ∈ node.children,
      Reports Leak context item entry (indexed path index) (decode (indexed path index) entry)) :
    Reports Leak context (.sequence item) node path
      (sequenceValue context node path >>= fun entries => eachItem path decode entries 0) := by
  apply Throws.bind (reports_sequenceValue rfl)
  intro entries hentries
  obtain ⟨hkind, rfl⟩ := sequenceValue_eq_ok_iff.mp hentries
  exact reports_eachItem hkind (hitem hkind)

theorem throws_eachPair {E : Exception → Prop} {decode : Node → Node → Except Exception α}
    (hvalid : node.Valid) (hkind : node.kind = .mapping)
    (h : ∀ pair ∈ node.pairs, Throws (decode pair.1 pair.2) E) :
    Throws (eachPair context node decode) E := by
  have hpairs : ∀ pair ∈ pairs node.children, pair.1.kind = .scalar ∧
      Throws (decode pair.1 pair.2) E :=
    fun pair hpair => ⟨(hvalid.admitted hkind).scalar pair hpair, h pair hpair⟩
  rw [eachPair, expect_eq_ok hkind]
  change Throws (eachPair.loop context decode node.children) E
  revert hpairs
  refine even_induction (motive := fun list => (∀ pair ∈ pairs list, pair.1.kind = .scalar ∧
    Throws (decode pair.1 pair.2) E) → Throws (eachPair.loop context decode list) E)
    ?_ ?_ (hvalid.even hkind)
  · exact fun _ => Throws.pure
  · intro key value rest _ ih hpairs
    obtain ⟨hscalar, hdecode⟩ := hpairs (key, value) (by simp)
    rw [eachPair.loop, expect_eq_ok hscalar]
    exact Throws.bind (x := decode key value) hdecode fun _ _ =>
      Throws.bind (ih fun pair hpair => hpairs pair (by simp [hpair])) fun _ _ => Throws.pure

end

end PkgsourceYaml
