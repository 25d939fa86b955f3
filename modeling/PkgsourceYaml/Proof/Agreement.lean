import PkgsourceYaml.Presentation
import PkgsourceYaml.Proof.Fields
import PkgsourceYaml.Library.Entrywise

/-!
# Two runs over matched trees

What two runs have in common when they read the same tree but for its marks: every field reader ends
alike in both. How marks, exceptions and the values of `libpkgsource` are compared is a parameter.
-/

namespace PkgsourceYaml

open Throwing Pairing

/-- A way to compare two runs in two contexts, which `libpkgsource` respects. -/
structure Correspondence (core : Core) (context context' : Context) where
  Mark : SourceMark → SourceMark → Prop
  Failed : CoreError → CoreError → Prop
  Thrown : Exception → Exception → Prop
  Site : core.DeclarationProvenance → core.DeclarationProvenance → Prop
  Requirement : core.RequirementDeclaration → core.RequirementDeclaration → Prop
  Member : core.ProfileMemberDeclaration → core.ProfileMemberDeclaration → Prop
  Profile : core.ProfileDeclaration → core.ProfileDeclaration → Prop
  Recipe : core.RecipeDeclaration → core.RecipeDeclaration → Prop
  failed_refl : ∀ failed, Failed failed failed
  failure : ∀ code path mark mark' message, Mark mark mark' →
    Thrown (failure code context.origin path mark message)
      (failure code context'.origin path mark' message)
  rejection : ∀ path mark mark' failed failed', Mark mark mark' → Failed failed failed' →
    Thrown (PkgsourceYaml.failure .invalidValue context.origin path mark failed.what)
      (PkgsourceYaml.failure .invalidValue context'.origin path mark' failed'.what)
  escape : ∀ failed failed', Failed failed failed' → Thrown (.core failed) (.core failed')
  site : ∀ path mark mark', Mark mark mark' →
    Agrees Failed Site
      (core.declarationProvenance context.origin.document path mark.line mark.column)
      (core.declarationProvenance context'.origin.document path mark'.line mark'.column)
  requirement : ∀ scope subject site site', Site site site' →
    Agrees Failed Requirement (core.requirementDeclaration scope subject site)
      (core.requirementDeclaration scope subject site')
  member : ∀ subject site site', Site site site' →
    Agrees Failed Member (core.profileMemberDeclaration subject site)
      (core.profileMemberDeclaration subject site')
  profile : ∀ reference site site' members members', Site site site' →
    List.Forall₂ Member members members' →
    Agrees Failed Profile (core.profileDeclaration reference site members)
      (core.profileDeclaration reference site' members')
  recipe : ∀ release metadata sources build requirements requirements' lifecycle architectures
    site site' check, List.Forall₂ Requirement requirements requirements' → Site site site' →
    Agrees Failed Recipe
      (core.recipeDeclaration release metadata sources build requirements lifecycle architectures
        site check)
      (core.recipeDeclaration release metadata sources build requirements' lifecycle architectures
        site' check)

/-- A child of a valid collection is valid: an item, a value, or a key, which is a scalar. -/
theorem Node.Valid.child {node child : Node} (h : node.Valid) (hkind : node.kind ≠ .scalar)
    (hchild : child ∈ node.children) : child.Valid := by
  cases h with
  | scalar => exact absurd rfl hkind
  | sequence items => exact items child hchild
  | mapping paired keys values =>
      obtain ⟨⟨key, value⟩, hpair, heq⟩ := exists_mem_pairs paired hchild
      rcases heq with hkey | hvalue
      · have hscalar : child.kind = .scalar := hkey ▸ keys.scalar _ hpair
        obtain ⟨kind, mark, text, children⟩ := child
        obtain rfl : kind = .scalar := hscalar
        exact .scalar
      · exact hvalue ▸ values _ hpair

theorem Node.Alike.kind_eq {Mark : SourceMark → SourceMark → Prop} {node node' : Node}
    (h : node.Alike Mark node') : node'.kind = node.kind := by
  cases h
  rfl

theorem Node.Alike.scalar_eq {Mark : SourceMark → SourceMark → Prop} {node node' : Node}
    (h : node.Alike Mark node') : node'.scalar = node.scalar := by
  cases h
  rfl

/-- Valid trees that are the same but for their marks. -/
structure Matched (Mark : SourceMark → SourceMark → Prop) (node node' : Node) : Prop where
  alike : node.Alike Mark node'
  left : node.Valid
  right : node'.Valid

namespace Matched

variable {Mark : SourceMark → SourceMark → Prop} {node node' : Node}

theorem kind (h : Matched Mark node node') : node'.kind = node.kind := h.alike.kind_eq

theorem scalar (h : Matched Mark node node') : node'.scalar = node.scalar := h.alike.scalar_eq

theorem mark (h : Matched Mark node node') : Mark node.mark node'.mark := by
  cases h.alike with
  | intro hmark _ => exact hmark

theorem children (h : Matched Mark node node') (hkind : node.kind ≠ .scalar) :
    List.Forall₂ (Matched Mark) node.children node'.children := by
  have hkind' : node'.kind ≠ .scalar := h.kind ▸ hkind
  have halike : List.Forall₂ (Node.Alike Mark) node.children node'.children := by
    cases h.alike with
    | intro _ hchildren => exact hchildren
  exact Entrywise.forall₂_imp_mem (fun child hchild child' hchild' hpair =>
    ⟨hpair, h.left.child hkind hchild, h.right.child hkind' hchild'⟩) halike

/-- The same keys are there on both sides, with matched values. -/
theorem field (h : Matched Mark node node') (hkind : node.kind = .mapping) (key : Bytes) :
    Option.Rel (Matched Mark) (node.field? key) (node'.field? key) := by
  have hpairs := forall₂_pairs (h.children (by simp [hkind]))
  have hfind := Entrywise.find?_of_forall₂ (p := (·.1.scalar = key)) (q := (·.1.scalar = key))
    (fun pair pair' hpair => by rw [hpair.1.scalar]) hpairs
  rw [Node.field?_eq hkind, Node.field?_eq (h.kind.trans hkind), Node.pairs, Node.pairs]
  generalize (pairs node.children).find? _ = found at hfind ⊢
  generalize (pairs node'.children).find? _ = found' at hfind ⊢
  cases hfind with
  | none => exact Option.Rel.none
  | some hpair => exact Option.Rel.some hpair.2

end Matched

variable {core : Core} {context context' : Context} (link : Correspondence core context context')
  {node node' : Node}

/-! ### Field readers -/

theorem agrees_fail {α α' : Type} {Q : α → α' → Prop} (code : YamlErrorCode) (path : Bytes)
    (h : link.Mark node.mark node'.mark) (message : Bytes) :
    Agrees link.Thrown Q (context.fail code path node.mark message)
      (context'.fail code path node'.mark message) :=
  Agrees.throw (link.failure code path _ _ message h)

theorem agrees_requireKind (h : Matched link.Mark node node') (expected : NodeKind)
    (path name : Bytes) :
    Agrees link.Thrown (fun found found' => found = node ∧ found' = node' ∧ node.kind = expected)
      (requireKind context node expected path name)
      (requireKind context' node' expected path name) := by
  unfold requireKind
  apply Agrees.ite (by rw [h.kind]) (fun _ => agrees_fail link _ _ h.mark _)
  intro hkind
  exact Agrees.pure ⟨rfl, rfl, not_not.mp hkind⟩

/-- After the check, both runs go on with the nodes themselves. -/
theorem agrees_requireKind_bind {α α' : Type} {Q : α → α' → Prop} {f : Node → Except Exception α}
    {g : Node → Except Exception α'} (h : Matched link.Mark node node') (expected : NodeKind)
    (path name : Bytes) (hnext : node.kind = expected → Agrees link.Thrown Q (f node) (g node')) :
    Agrees link.Thrown Q (requireKind context node expected path name >>= f)
      (requireKind context' node' expected path name >>= g) := by
  apply (agrees_requireKind link h expected path name).bind
  intro found found' _ _ hfound
  rw [hfound.1, hfound.2.1]
  exact hnext hfound.2.2

theorem agrees_findKey (h : Matched link.Mark node node') (hkind : node.kind = .mapping)
    (key : Bytes) :
    Agrees link.Thrown (Option.Rel (Matched link.Mark)) (findKey context node key)
      (findKey context' node' key) := by
  rw [findKey_eq h.left hkind, findKey_eq h.right (h.kind.trans hkind)]
  exact Agrees.ok (h.field hkind key)

/-- Both runs find the key or neither does, and go on with what they found. -/
theorem agrees_findKey_bind {α α' : Type} {Q : α → α' → Prop} {f : Option Node → Except Exception α}
    {g : Option Node → Except Exception α'} (h : Matched link.Mark node node')
    (hkind : node.kind = .mapping) (key : Bytes) (hnone : Agrees link.Thrown Q (f none) (g none))
    (hsome : ∀ value value', Matched link.Mark value value' →
      Agrees link.Thrown Q (f (some value)) (g (some value'))) :
    Agrees link.Thrown Q (findKey context node key >>= f) (findKey context' node' key >>= g) := by
  apply (agrees_findKey link h hkind key).bind
  intro found found' _ _ hfound
  cases hfound with
  | none => exact hnone
  | some hvalue => exact hsome _ _ hvalue

theorem agrees_requiredKey (h : Matched link.Mark node node') (hkind : node.kind = .mapping)
    (key path : Bytes) :
    Agrees link.Thrown (Matched link.Mark) (requiredKey context node key path)
      (requiredKey context' node' key path) := by
  have hfield := h.field hkind key
  rw [requiredKey_eq h.left hkind, requiredKey_eq h.right (h.kind.trans hkind)]
  generalize node.field? key = found at hfield ⊢
  generalize node'.field? key = found' at hfield ⊢
  cases hfield with
  | none => exact Agrees.error (link.failure _ _ _ _ _ h.mark)
  | some hvalue => exact Agrees.ok hvalue

theorem agrees_checkKey (h : Matched link.Mark node node') (hkind : node.kind = .scalar)
    (path : Bytes) (allowed : List Bytes) :
    Agrees link.Thrown (fun _ _ => True) (allowKeys.checkKey context path allowed node)
      (allowKeys.checkKey context' path allowed node') := by
  rw [checkKey_eq hkind, checkKey_eq (h.kind.trans hkind), h.scalar]
  apply Agrees.ite Iff.rfl (fun _ => Agrees.ok trivial)
  intro _
  exact Agrees.error (link.failure _ _ _ _ _ h.mark)

/-- The loop over the keys, on lists of pairs whose keys are scalars. -/
theorem agrees_checkKeys (path : Bytes) (allowed : List Bytes) {list list' : List Node}
    (h : List.Forall₂ (Matched link.Mark) list list') (heven : list.length % 2 = 0)
    (hscalar : ∀ pair ∈ pairs list, pair.1.kind = .scalar) :
    Agrees link.Thrown (fun _ _ => True) (allowKeys.check context path allowed list)
      (allowKeys.check context' path allowed list') := by
  revert hscalar
  refine even_induction₂ (motive := fun list list' =>
    (∀ pair ∈ pairs list, pair.1.kind = .scalar) →
    Agrees link.Thrown (fun _ _ => True) (allowKeys.check context path allowed list)
      (allowKeys.check context' path allowed list')) ?_ ?_ h heven
  · exact fun _ => Agrees.pure trivial
  · intro key value rest key' value' rest' hkey _ ih hscalar
    have hfirst : key.kind = .scalar := hscalar (key, value) (by simp)
    have hrest := ih fun pair hpair => hscalar pair (by simp [hpair])
    rw [allowKeys.check, allowKeys.check]
    exact (agrees_checkKey link hkey hfirst path allowed).bind fun _ _ _ _ _ => hrest

theorem agrees_allowKeys (h : Matched link.Mark node node') (path : Bytes) (allowed : List Bytes) :
    Agrees link.Thrown (fun _ _ => node.kind = .mapping) (allowKeys context node path allowed)
      (allowKeys context' node' path allowed) := by
  unfold allowKeys
  apply agrees_requireKind_bind link h .mapping path path
  intro hkind
  have hcheck := agrees_checkKeys link path allowed (h.children (by simp [hkind]))
    (h.left.even hkind) (h.left.admitted hkind).scalar
  rw [expect_eq_ok hkind, expect_eq_ok (h.kind.trans hkind)]
  exact hcheck.mono (fun _ _ => id) fun _ _ _ => hkind

theorem agrees_scalarValue (h : Matched link.Mark node node') (path : Bytes) :
    Agrees link.Thrown Eq (scalarValue context node path)
      (scalarValue context' node' path) := by
  unfold scalarValue
  apply agrees_requireKind_bind link h .scalar path path
  intro _
  exact Agrees.pure h.scalar.symm

theorem agrees_sequenceValue (h : Matched link.Mark node node') (path : Bytes) :
    Agrees link.Thrown (List.Forall₂ (Matched link.Mark)) (sequenceValue context node path)
      (sequenceValue context' node' path) := by
  unfold sequenceValue
  apply agrees_requireKind_bind link h .sequence path path
  intro hkind
  exact Agrees.pure (h.children (by simp [hkind]))

/-! ### Calls of `libpkgsource` -/

theorem agrees_provenance (h : link.Mark node.mark node'.mark) (path : Bytes) :
    Agrees link.Failed link.Site (provenance core context path node)
      (provenance core context' path node') :=
  link.site path _ _ h

theorem agrees_semanticValue {α α' : Type} {Q : α → α' → Prop} {call : Except CoreError α}
    {call' : Except CoreError α'} (h : link.Mark node.mark node'.mark) (path : Bytes)
    (hcall : Agrees link.Failed Q call call') :
    Agrees link.Thrown Q (semanticValue context path node call)
      (semanticValue context' path node' call') := by
  cases hcall with
  | ok hvalue => exact Agrees.pure hvalue
  | error hfailed => exact Agrees.throw (link.rejection _ _ _ _ _ h hfailed)

theorem agrees_propagate {α α' : Type} {Q : α → α' → Prop} {call : Except CoreError α}
    {call' : Except CoreError α'} (hcall : Agrees link.Failed Q call call') :
    Agrees link.Thrown Q (propagate call) (propagate call') := by
  cases hcall with
  | ok hvalue => exact Agrees.ok hvalue
  | error hfailed => exact Agrees.error (link.escape _ _ hfailed)

/-- The same call in both runs. -/
theorem Correspondence.same {α : Type} (call : Except CoreError α) :
    Agrees link.Failed Eq call call :=
  Agrees.refl link.failed_refl call

/-! ### Loops -/

theorem agrees_eachItem {α α' : Type} {Q : α → α' → Prop} {path : Bytes}
    {decode : Bytes → Node → Except Exception α} {decode' : Bytes → Node → Except Exception α'}
    (hdecode : ∀ itemPath entry entry', Matched link.Mark entry entry' →
      Agrees link.Thrown Q (decode itemPath entry) (decode' itemPath entry'))
    {entries entries' : List Node} (h : List.Forall₂ (Matched link.Mark) entries entries')
    (index : Nat) :
    Agrees link.Thrown (List.Forall₂ Q) (eachItem path decode entries index)
      (eachItem path decode' entries' index) := by
  induction h generalizing index with
  | nil => exact Agrees.pure List.Forall₂.nil
  | cons hentry _ ih =>
      rw [eachItem, eachItem]
      apply (hdecode _ _ _ hentry).bind
      intro value value' _ _ hvalue
      apply (ih (index + 1)).bind
      intro values values' _ _ hvalues
      exact Agrees.pure (List.Forall₂.cons hvalue hvalues)

theorem agrees_eachPairLoop {α α' : Type} {Q : α → α' → Prop}
    {decode : Node → Node → Except Exception α} {decode' : Node → Node → Except Exception α'}
    (hdecode : ∀ key key' value value', Matched link.Mark key key' →
      Matched link.Mark value value' →
      Agrees link.Thrown Q (decode key value) (decode' key' value'))
    {list list' : List Node} (h : List.Forall₂ (Matched link.Mark) list list')
    (heven : list.length % 2 = 0) (hscalar : ∀ pair ∈ pairs list, pair.1.kind = .scalar) :
    Agrees link.Thrown (List.Forall₂ Q) (eachPair.loop context decode list)
      (eachPair.loop context' decode' list') := by
  revert hscalar
  refine even_induction₂ (motive := fun list list' =>
    (∀ pair ∈ pairs list, pair.1.kind = .scalar) →
    Agrees link.Thrown (List.Forall₂ Q) (eachPair.loop context decode list)
      (eachPair.loop context' decode' list')) ?_ ?_ h heven
  · exact fun _ => Agrees.pure List.Forall₂.nil
  · intro key value rest key' value' rest' hkey hvalue ih hscalar
    have hfirst : key.kind = .scalar := hscalar (key, value) (by simp)
    have hrest := ih fun pair hpair => hscalar pair (by simp [hpair])
    rw [eachPair.loop, eachPair.loop, expect_eq_ok hfirst, expect_eq_ok (hkey.kind.trans hfirst)]
    apply (hdecode _ _ _ _ hkey hvalue).bind
    intro decoded decoded' _ _ hdecoded
    apply hrest.bind
    intro others others' _ _ hothers
    exact Agrees.pure (List.Forall₂.cons hdecoded hothers)

theorem agrees_eachPair {α α' : Type} {Q : α → α' → Prop}
    {decode : Node → Node → Except Exception α} {decode' : Node → Node → Except Exception α'}
    (h : Matched link.Mark node node') (hkind : node.kind = .mapping)
    (hdecode : ∀ key key' value value', Matched link.Mark key key' →
      Matched link.Mark value value' →
      Agrees link.Thrown Q (decode key value) (decode' key' value')) :
    Agrees link.Thrown (List.Forall₂ Q) (eachPair context node decode)
      (eachPair context' node' decode') := by
  unfold eachPair
  rw [expect_eq_ok hkind, expect_eq_ok (h.kind.trans hkind)]
  exact agrees_eachPairLoop link hdecode (h.children (by simp [hkind])) (h.left.even hkind)
    (h.left.admitted hkind).scalar

/-! ### Subjects and formats -/

theorem agrees_subjectValue (h : Matched link.Mark node node') (path : Bytes) :
    Agrees link.Thrown Eq (subjectValue core context node path)
      (subjectValue core context' node' path) := by
  unfold subjectValue
  apply (agrees_allowKeys link h path _).bind
  intro _ _ _ _ hkind
  apply (agrees_findKey link h hkind _).bind
  intro package package' _ _ hpackage
  apply (agrees_findKey link h hkind _).bind
  intro profile profile' _ _ hprofile
  cases hpackage with
  | none =>
      cases hprofile with
      | none => exact agrees_fail link _ _ h.mark _
      | some hprofile =>
          apply (agrees_scalarValue link hprofile _).bind_same
          intro name
          exact agrees_semanticValue link hprofile.mark _ (link.same _)
  | some hpackage =>
      cases hprofile with
      | none =>
          apply (agrees_scalarValue link hpackage _).bind_same
          intro name
          exact agrees_semanticValue link hpackage.mark _ (link.same _)
      | some hprofile => exact agrees_fail link _ _ h.mark _

theorem agrees_requireFormat (h : Matched link.Mark node node') (hkind : node.kind = .mapping)
    (expected : Bytes) :
    Agrees link.Thrown (fun _ _ => True) (requireFormat context node expected)
      (requireFormat context' node' expected) := by
  unfold requireFormat
  apply (agrees_requiredKey link h hkind _ _).bind
  intro format format' _ _ hformat
  apply (agrees_scalarValue link hformat _).bind_same
  intro text
  apply Agrees.ite Iff.rfl (fun _ => agrees_fail link _ _ hformat.mark _)
  intro _
  exact Agrees.pure trivial

end PkgsourceYaml
