import PkgsourceYaml.Proof.Envelope
import PkgsourceYaml.Proof.ProfilesFaults

/-!
# No libpkgsource error escapes

A provenance outside `semantic_value` is built at a fixed path, or below a profile key whose own
provenance has been accepted before, so a mapping key cannot make it fail.
-/

namespace PkgsourceYaml

open Throwing

variable {core : Core} {context : Context} {safe : UInt8 → Prop}

/-- The bytes that the fixed schema names and the indices of a path are made of. -/
def schematicByte (byte : UInt8) : Bool :=
  (97 ≤ byte && byte ≤ 122) || isDigit byte || (ascii "-.[]").contains byte

/-- What is assumed of `libpkgsource`: it accepts a provenance exactly at a one-based mark and a
path of safe bytes, and no constructor fails that the parser calls unguarded. -/
structure Dependable (core : Core) (safe : UInt8 → Prop) : Prop where
  schematic : ∀ byte, schematicByte byte = true → safe byte
  provenance : ∀ document path line column,
    (∃ site, core.declarationProvenance document path line column = .ok site) ↔
      1 ≤ line ∧ 1 ≤ column ∧ ∀ byte ∈ path, safe byte
  buildScope : ∃ scope, core.buildScope = .ok scope
  runScope : ∃ scope, core.runScope = .ok scope
  checkScope : ∃ scope, core.checkScope = .ok scope
  lifecycleScope : ∀ action, ∃ scope, core.lifecycleScope action = .ok scope
  requirement : ∀ scope subject site,
    ∃ declaration, core.requirementDeclaration scope subject site = .ok declaration
  lifecycle : ∀ action program,
    ∃ lifecycleProgram, core.lifecycleProgram action program = .ok lifecycleProgram
  member : ∀ subject site, ∃ member, core.profileMemberDeclaration subject site = .ok member
  architectures : ∃ architectures, core.architectureRequirements [] [] = .ok architectures
  recipe : ∀ release metadata sources build requirements lifecycle architectures site check,
    ∃ declaration, core.recipeDeclaration release metadata sources build requirements lifecycle
      architectures site check = .ok declaration

theorem Dependable.provenance_iff (h : Dependable core safe) {path : Bytes} {node : Node} :
    (∃ site, PkgsourceYaml.provenance core context path node = .ok site) ↔
      node.mark.OneBased ∧ ∀ byte ∈ path, safe byte :=
  (h.provenance _ _ _ _).trans and_assoc.symm

theorem Dependable.safePath (h : Dependable core safe) {path : Bytes}
    (hpath : path.all schematicByte = true) : ∀ byte ∈ path, safe byte :=
  fun byte hbyte => h.schematic byte (List.all_eq_true.mp hpath byte hbyte)

theorem Dependable.indexed (h : Dependable core safe) {path : Bytes} {index : Nat}
    (hpath : ∀ byte ∈ path, safe byte) : ∀ byte ∈ indexed path index, safe byte := by
  intro byte hbyte
  simp only [PkgsourceYaml.indexed, List.mem_append] at hbyte
  rcases hbyte with ((hbyte | hbyte) | hbyte) | hbyte
  · exact hpath byte hbyte
  · exact h.safePath (by decide) byte hbyte
  · apply h.schematic byte
    rw [schematicByte, isDigit_of_mem_decimal hbyte, Bool.or_true, Bool.true_or]
  · exact h.safePath (by decide) byte hbyte

theorem Dependable.recipeSite (h : Dependable core safe) {path : Bytes} (hpath : RecipeSite path) :
    ∀ byte ∈ path, safe byte := by
  cases hpath with
  | document => exact h.safePath (by decide)
  | scope key index hkey =>
      have hscopes : [ascii "build", ascii "run", ascii "check"].all
          (fun key => (childPath (ascii "requirements") key).all schematicByte) = true := by decide
      exact h.indexed (h.safePath (List.all_eq_true.mp hscopes key hkey))
  | lifecycle action index =>
      refine h.indexed (h.safePath ?_)
      cases action <;> decide

section

variable {root : Node}

theorem Dependable.unguardedRecipe (h : Dependable core safe)
    (hmarks : ∀ node ∈ root.nodes, node.mark.OneBased) : UnguardedRecipe core context root :=
  ⟨fun _ hpath node hnode => h.provenance_iff.mpr ⟨hmarks node hnode, h.recipeSite hpath⟩,
    h.buildScope, h.runScope, h.checkScope, h.lifecycleScope, h.requirement, h.lifecycle,
    h.architectures, h.recipe⟩

/-- The key of a profile is admitted before its members are declared below it. -/
theorem Dependable.unguardedProfiles (h : Dependable core safe)
    (hmarks : ∀ node ∈ root.nodes, node.mark.OneBased) : UnguardedProfiles core context root := by
  refine ⟨fun key _ hadmitted index entry hentry => h.provenance_iff.mpr ⟨hmarks entry hentry, ?_⟩,
    h.member⟩
  have hkey : ∀ byte ∈ profilePath key.scalar, safe byte := (h.provenance_iff.mp hadmitted).2
  apply h.indexed
  intro byte hbyte
  rcases List.mem_append.mp hbyte with hbyte | hbyte
  · exact hkey byte hbyte
  · exact h.safePath (by decide) byte hbyte

end

/-- Where nothing leaks, a decoder throws `yaml_error`s only. -/
theorem Reports.isYaml {Leak : Exception → Prop} {schema : Schema} {node : Node} {path : Bytes}
    {α : Type} {x : Except Exception α} (h : Reports Leak context schema node path x)
    (hleak : ∀ exception, ¬Leak exception) : Throws x Exception.IsYaml := by
  intro exception herror
  rcases h exception herror with ⟨_, _, _, _, -, rfl⟩ | hleaked
  · exact isYaml_failure _ _ _ _ _
  · exact absurd hleaked (hleak exception)

/-- **Containment.** Over a dependable `libpkgsource` and a stream of events with one-based marks,
for every origin, all limits and every evaluation order, whatever the two entry points throw is a
`yaml_error` or the failure of the event provider itself, and so no `libpkgsource` error. -/
theorem no_core_error_escapes (core : Core) (context : Context) (order : EvaluationOrder)
    (input : Input) (limits : ParseLimits) (safe : UInt8 → Prop) (hcore : Dependable core safe)
    (hmarks : ∀ call event, input.provider call = .ok event → event.mark.OneBased) :
    Throws (parseRecipeYaml core context order input limits) (Exception.Attributed input) ∧
      Throws (parseProfilesYaml core context input limits) (Exception.Attributed input) := by
  have hroot : ∀ root, documentOutcome input context.origin limits = .ok root →
      root.Valid ∧ ∀ node ∈ root.nodes, node.mark.OneBased := by
    intro root hroot
    refine ⟨valid_of_documentOutcome hroot, fun node hnode => ?_⟩
    obtain ⟨call, event, hcall, hmark⟩ := mark_of_documentOutcome hroot hnode
    exact hmark ▸ hmarks call event hcall
  constructor
  · apply Throws.bind documentOutcome_throws
    intro root hdocument
    obtain ⟨hvalid, hone⟩ := hroot root hdocument
    have hyaml : Throws (recipeValue core context order root) Exception.IsYaml :=
      (reports_recipeValue hvalid).isYaml fun _ => (hcore.unguardedRecipe hone).not_leak
    exact Throws.mono hyaml fun _ => Or.inl
  · apply Throws.bind documentOutcome_throws
    intro root hdocument
    obtain ⟨hvalid, hone⟩ := hroot root hdocument
    have hyaml : Throws (profilesValue core context root) Exception.IsYaml :=
      (reports_profilesValue hvalid).isYaml fun _ => (hcore.unguardedProfiles hone).not_leak
    exact Throws.mono hyaml fun _ => Or.inl

/-- A `libpkgsource` that accepts everything but a provenance at an unsafe path. -/
def Core.guarded : Core :=
  { Core.permissive with
    declarationProvenance := fun _ path line column =>
      if 1 ≤ line ∧ 1 ≤ column ∧ path.all schematicByte = true then .ok ()
      else .error ⟨ascii "unsafe provenance"⟩ }

theorem dependable_guarded : Dependable Core.guarded (schematicByte · = true) where
  schematic _ h := h
  provenance document path line column := by
    rw [← List.all_eq_true]
    by_cases h : 1 ≤ line ∧ 1 ≤ column ∧ path.all schematicByte = true
    · exact ⟨fun _ => h, fun _ => ⟨(), if_pos h⟩⟩
    · refine ⟨fun ⟨site, hsite⟩ => ?_, fun h' => absurd h' h⟩
      have herror := (if_neg h).symm.trans hsite
      cases herror
  buildScope := ⟨(), rfl⟩
  runScope := ⟨(), rfl⟩
  checkScope := ⟨(), rfl⟩
  lifecycleScope _ := ⟨(), rfl⟩
  requirement _ _ _ := ⟨(), rfl⟩
  lifecycle _ _ := ⟨(), rfl⟩
  member _ _ := ⟨(), rfl⟩
  architectures := ⟨(), rfl⟩
  recipe _ _ _ _ _ _ _ _ _ := ⟨(), rfl⟩

def unsafeProfiles : EventTree :=
  .fields
    [("format", .text "zeppe-lin.profiles/1"),
      ("profiles", .fields [("base desk", .fields [("members",
        .items [.fields [("package", .text "libc")]])])])]

/-- What holds of the events of a document holds of all events its input yields. -/
theorem forall_spelling {P : YamlEvent → Prop} {byteLength : Nat} {tree : EventTree}
    (h : ∀ event ∈ (DocumentEvents.around tree).serialize, P event) (call : Nat)
    (event : YamlEvent) (hcall : (Input.spelling byteLength tree).provider call = .ok event) :
    P event := by
  simp only [Input.spelling] at hcall
  cases hget : (DocumentEvents.around tree).serialize[call]? with
  | none => simp [hget] at hcall
  | some found =>
      obtain rfl : found = event := by simpa [hget] using hcall
      exact h found (List.mem_of_getElem? hget)

theorem no_core_error_escapes_unsafe :
    (failure .invalidValue ⟨ascii "profiles.yaml"⟩ (ascii "profiles.base desk") ⟨1, 1⟩
      (ascii "unsafe provenance")).Attributed (.spelling 120 unsafeProfiles) :=
  (no_core_error_escapes Core.guarded ⟨⟨ascii "profiles.yaml"⟩, false⟩ .textual
    (.spelling 120 unsafeProfiles) {} _ dependable_guarded
    (forall_spelling (by unfold SourceMark.OneBased; decide))).2 _ rfl

end PkgsourceYaml
