import PkgsourceYaml.Proof.RecipeFaults

/-!
# Faults of a profiles document, and truthful diagnostics
-/

namespace PkgsourceYaml

open Throwing Pairing

variable {core : Core} {context : Context}

/-- The exceptions with which an unguarded call of `parse_profiles_yaml` can end the run. -/
inductive ProfilesLeak (core : Core) (context : Context) (root : Node) : Exception → Prop where
  | site {key entry : Node} {index : Nat} {failed : CoreError} (hkey : key ∈ root.nodes)
      (hadmitted : ∃ site, provenance core context (profilePath key.scalar) key = .ok site)
      (hentry : entry ∈ root.nodes)
      (h : provenance core context (indexed (profilePath key.scalar ++ ascii ".members") index)
        entry = .error failed) : ProfilesLeak core context root (.core failed)
  | member {subject : core.RequirementSubject} {site : core.DeclarationProvenance}
      {failed : CoreError} (h : core.profileMemberDeclaration subject site = .error failed) :
      ProfilesLeak core context root (.core failed)

section

variable {root : Node}

theorem ProfilesLeak.exists_core {exception : Exception}
    (h : ProfilesLeak core context root exception) : ∃ failed, exception = .core failed := by
  cases h <;> exact ⟨_, rfl⟩

theorem UnguardedProfiles.not_leak {exception : Exception}
    (hunguarded : UnguardedProfiles core context root) :
    ¬ProfilesLeak core context root exception := by
  intro h
  cases h with
  | @site key entry index failed hkey hadmitted hentry h =>
      obtain ⟨site, hsite⟩ := hunguarded.site key hkey hadmitted index entry hentry
      rw [hsite] at h
      cases h
  | @member subject site failed h =>
      obtain ⟨member, hmember⟩ := hunguarded.member subject site
      rw [hmember] at h
      cases h

theorem childPath_profiles (key : Bytes) : childPath (ascii "profiles") key = profilePath key := by
  rw [childPath, if_neg (by decide)]
  rfl

theorem childPath_profilePath (key : Bytes) :
    childPath (profilePath key) (ascii "members") = profilePath key ++ ascii ".members" := by
  have hne : profilePath key ≠ ascii "$" := by
    intro h
    have hhead : (profilePath key).head? = some (asciiByte 'p') := rfl
    rw [h] at hhead
    exact absurd hhead (by decide)
  rw [childPath, if_neg hne, List.append_assoc]
  rfl

/-- One profile: its name, its location and itself are reported at its key, the rest below it. -/
theorem reports_profileValue {node key definition : Node} (hvalid : node.Valid)
    (hkind : node.kind = .mapping) (hpair : (key, definition) ∈ node.pairs)
    (hnode : node ∈ root.nodes) :
    Reports (ProfilesLeak core context root) context
      (.table (ProfileRejected core context) (profileSchema core)) node (ascii "profiles")
      (profileValue core context key definition) := by
  have hkey : {α : Type} → {call : Except CoreError α} →
      (∀ failed, call = .error failed → ProfileRejected core context key definition) →
      Reports (ProfilesLeak core context root) context
        (.table (ProfileRejected core context) (profileSchema core)) node (ascii "profiles")
        (semanticValue context (profilePath key.scalar) key call) := by
    intro α call h
    cases hcall : call with
    | ok a => exact Throws.pure
    | error failed =>
        rw [← childPath_profiles]
        exact reports_fail [.key key.scalar] (.badKey hkind hpair (h failed hcall))
  have hfield : node.field? key.scalar = some definition :=
    hvalid.field?_of_pair hkind hpair
  have hdefinition := hvalid.pair hkind hpair
  have hbelow : {α : Type} → {x : Except Exception α} →
      Reports (ProfilesLeak core context root) context (profileSchema core) definition
        (profilePath key.scalar) x →
      Reports (ProfilesLeak core context root) context
        (.table (ProfileRejected core context) (profileSchema core)) node (ascii "profiles") x :=
    fun h => Reports.field hkind hfield rfl (childPath_profiles key.scalar ▸ h)
  apply Throws.bind (hkey fun failed h => Or.inl ⟨failed, h⟩)
  intro reference hreference
  apply Throws.bind (hkey fun failed h => Or.inr (Or.inl ⟨failed, h⟩))
  intro site hsite
  rw [semanticValue_eq_ok_iff] at hreference hsite
  apply Throws.bind (hbelow (reports_allowKeys hdefinition rfl))
  intro _ hkeys
  rw [allowKeys_eq_ok_iff hdefinition] at hkeys
  apply Throws.bind (hbelow (reports_requiredKey hdefinition hkeys.1 rfl))
  intro list hlist
  rw [requiredKey_eq_ok_iff hdefinition hkeys.1] at hlist
  have hlistNode : list ∈ root.nodes := field_mem_nodes (field_mem_nodes hnode hfield) hlist
  refine Throws.bind (hbelow (Reports.field hkeys.1 hlist rfl
    (childPath_profilePath key.scalar ▸ reports_sequenceValue rfl))) fun entries hentries => ?_
  obtain ⟨hsequence, rfl⟩ := sequenceValue_eq_ok_iff.mp hentries
  refine Throws.bind (hbelow (Reports.field hkeys.1 hlist rfl ?_)) fun members hmembers => ?_
  · rw [childPath_profilePath]
    apply reports_eachItem hsequence
    intro index entry hentry
    exact reports_declared ((hdefinition.field hlist).item hsequence hentry)
      (fun _ => .site (root.pair_mem_nodes hnode hpair).1 ⟨site, hsite⟩
        (root.child_mem_nodes hlistNode hentry))
      fun _ _ _ => .member
  · have hitems := (isItems_iff (hdefinition.field hlist)
      fun _ _ _ hentry => memberValue_eq_ok_iff hentry).mp ⟨list.children, hentries, hmembers⟩
    exact hkey fun failed h => Or.inr (Or.inr ⟨failed, reference, site, members, hreference, hsite,
      ⟨hkeys, list, hlist, hitems⟩, h⟩)

/-- Whatever `parse_profiles_yaml` throws on a valid tree reports a fault of the tree or comes from
an unguarded call. -/
theorem reports_profilesValue (hvalid : root.Valid) :
    Reports (ProfilesLeak core context root) context (profilesSchema core context) root (ascii "$")
      (profilesValue core context root) := by
  refine Throws.bind (reports_allowKeys hvalid rfl) fun _ hkeys => ?_
  have hkind := ((allowKeys_eq_ok_iff hvalid).mp hkeys).1
  apply Throws.bind (reports_requireFormat hvalid hkind rfl)
  intro _ _
  apply Throws.bind (reports_requiredKey hvalid hkind rfl)
  intro profiles hprofiles
  rw [requiredKey_eq_ok_iff hvalid hkind] at hprofiles
  refine Throws.bind (Reports.field hkind hprofiles rfl (reports_requireKind rfl))
    fun found hfound => ?_
  obtain ⟨hmapping, rfl⟩ := requireKind_eq_ok_iff.mp hfound
  refine Reports.field hkind hprofiles rfl
    (throws_eachPair (hvalid.field hprofiles) hmapping fun pair hpair => ?_)
  exact reports_profileValue (hvalid.field hprofiles) hmapping hpair
    (field_mem_nodes root.self_mem_nodes hprofiles)

end

/-! ### Diagnostics -/

/-- The diagnostic is about this document, names one of the four grammar categories, and its path
and mark are those of a fault the document really has. -/
structure Truthful (origin : SourceOrigin) (schema : Schema) (root : Node) (error : YamlError) :
    Prop where
  document : error.document = origin.document
  category : error.code ∈ [YamlErrorCode.unknownKey, .missingKey, .invalidType, .invalidValue]
  position : ∃ position, error.path = render position ∧
    FaultAt schema root position error.code error.mark

theorem Fault.category {schema : Schema} {node : Node} {suffix : List Segment}
    {code : YamlErrorCode} {mark : SourceMark} (h : Fault schema node suffix code mark) :
    code ∈ [YamlErrorCode.unknownKey, .missingKey, .invalidType, .invalidValue] := by
  cases h <;> decide

/-- A diagnostic of a decoder that leaks no `yaml_error` is truthful. -/
theorem Reports.truthful {Leak : Exception → Prop} {schema : Schema} {root : Node} {α : Type}
    {x : Except Exception α} {error : YamlError}
    (h : Reports Leak context schema root (ascii "$") x)
    (hleak : ∀ exception, Leak exception → ∃ failed, exception = .core failed)
    (herror : x = .error (.yaml error)) : Truthful context.origin schema root error := by
  rcases h _ herror with ⟨position, code, mark, message, hfault, hfailure⟩ | hleaked
  · obtain rfl := Exception.yaml.inj hfailure
    have hcategory := hfault
    obtain ⟨_, _, _, _, _, _, _, hlocal⟩ := hcategory
    exact ⟨rfl, hlocal.category, position, rfl, hfault⟩
  · obtain ⟨failed, hcore⟩ := hleak _ hleaked
    cases hcore

/-- **Truthful diagnostics.** On every tree `parse_document` returns, for every `libpkgsource`,
origin and evaluation order, each `yaml_error` of either entry point is truthful. -/
theorem diagnostics_truthful (core : Core) (context : Context) (order : EvaluationOrder)
    (input : Input) (limits : ParseLimits) {root : Node}
    (hroot : documentOutcome input context.origin limits = .ok root) :
    (∀ error, parseRecipeYaml core context order input limits = .error (.yaml error) →
      Truthful context.origin (recipeSchema core) root error) ∧
    ∀ error, parseProfilesYaml core context input limits = .error (.yaml error) →
      Truthful context.origin (profilesSchema core context) root error := by
  have hvalid := valid_of_documentOutcome hroot
  constructor
  · intro error herror
    rw [parseRecipeYaml, hroot] at herror
    exact (reports_recipeValue hvalid).truthful (fun _ => RecipeLeak.exists_core) herror
  · intro error herror
    rw [parseProfilesYaml, hroot] at herror
    exact (reports_profilesValue hvalid).truthful (fun _ => ProfilesLeak.exists_core) herror

def foreignRecipe : EventTree :=
  .fields
    [("format", .text "zeppe-lin.recipe/1"),
      ("package", .fields
        [("name", .text "demo"), ("version", .text "1.0"), ("release", .text "1"),
          ("summary", .text "A demo"), ("licenses", .items [])]),
      ("requirements", .fields []),
      ("sources", .items []),
      ("build", .fields
        [("language", .scalar { kind := .scalar, value := ascii "bash", mark := ⟨10, 13⟩ }),
          ("script", .text "make")])]

theorem diagnostics_truthful_foreign :
    Truthful ⟨ascii "recipe.yaml"⟩ (recipeSchema Core.permissive) foreignRecipe.toNode
      ⟨.invalidValue, ascii "recipe.yaml", ascii "build.language", ⟨10, 13⟩,
        ascii "language must be exactly posix-shell"⟩ :=
  (diagnostics_truthful Core.permissive ⟨⟨ascii "recipe.yaml"⟩, false⟩ .textual
    (.spelling 300 foreignRecipe) {} rfl).1 _ rfl

end PkgsourceYaml
