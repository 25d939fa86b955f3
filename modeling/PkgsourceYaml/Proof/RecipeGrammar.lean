import PkgsourceYaml.Recipe
import PkgsourceYaml.Library.Entrywise
import PkgsourceYaml.Proof.Release

/-!
# The recipe decoders read the recipe grammar

Each decoder of `recipe_fields.cpp` returns a value exactly when the grammar reads that value from
the node, whatever the path it is called with and whatever `libpkgsource` accepts.
-/

namespace PkgsourceYaml

open Throwing

variable {core : Core} {context : Context}

/-! ### Loops and optional keys -/

theorem isItems_iff {α : Type} {path : Bytes} {decode : Bytes → Node → Except Exception α}
    {Reads : Nat → Node → α → Prop} {node : Node} {values : List α} (hvalid : node.Valid)
    (h : ∀ index entry value, entry.Valid →
      (decode (indexed path index) entry = .ok value ↔ Reads index entry value)) :
    (∃ entries, sequenceValue context node path = .ok entries ∧
        eachItem path decode entries 0 = .ok values) ↔
      IsItems Reads node values := by
  have hcongr (hkind : node.kind = .sequence) : List.Forall₂
        (fun entry value => decode (indexed path entry.2) entry.1 = .ok value)
        node.children.zipIdx values ↔
      List.Forall₂ (fun entry value => Reads entry.2 entry.1 value)
        node.children.zipIdx values :=
    Entrywise.forall₂_congr fun entry hentry value =>
      h entry.2 entry.1 value (hvalid.item hkind (List.fst_mem_of_mem_zipIdx hentry))
  simp only [sequenceValue_eq_ok_iff, eachItem_eq_ok_iff, IsItems]
  constructor
  · rintro ⟨entries, ⟨hkind, rfl⟩, hvalues⟩
    exact ⟨hkind, (hcongr hkind).mp hvalues⟩
  · rintro ⟨hkind, hvalues⟩
    exact ⟨node.children, ⟨hkind, rfl⟩, (hcongr hkind).mpr hvalues⟩

theorem isEntries_iff {α : Type} {decode : Node → Node → Except Exception α}
    {Reads : Node → Node → α → Prop} {node : Node} {values : List α} (hvalid : node.Valid)
    (h : ∀ key child value, child.Valid → (decode key child = .ok value ↔ Reads key child value)) :
    (node.kind = .mapping ∧ eachPair context node decode = .ok values) ↔
      IsEntries Reads node values := by
  refine and_congr_right fun hkind => ?_
  rw [eachPair_eq_ok_iff hvalid hkind]
  exact Entrywise.forall₂_congr fun pair hpair value =>
    h pair.1 pair.2 value (hvalid.pair hkind hpair)

theorem isOptional_iff {α : Type} {decode : Option Node → Except Exception α}
    {Reads : Node → α → Prop} {absent value : α} {node : Node} {key : Bytes} (hvalid : node.Valid)
    (hkind : node.kind = .mapping) (hnone : decode none = .ok absent)
    (hsome : ∀ child, child.Valid → (decode (some child) = .ok value ↔ Reads child value)) :
    (findKey context node key >>= decode) = .ok value ↔
      IsOptional Reads absent (node.field? key) value := by
  rw [findKey_eq hvalid hkind]
  change decode (node.field? key) = .ok value ↔ _
  cases hfield : node.field? key with
  | none => rw [hnone, Except.ok.injEq, IsOptional, eq_comm]
  | some child => exact hsome child (hvalid.field hfield)

/-! ### Subjects and programs -/

theorem subjectValue_eq_ok_iff {node : Node} {path : Bytes} {subject : core.RequirementSubject}
    (hvalid : node.Valid) :
    subjectValue core context node path = .ok subject ↔ IsSubject core node subject := by
  rw [subjectValue, bind_eq_ok]
  constructor
  · rintro ⟨_, hkeys, h⟩
    rw [← subjectKeys, allowKeys_eq_ok_iff hvalid] at hkeys
    rw [findKey_eq hvalid hkeys.1, findKey_eq hvalid hkeys.1] at h
    cases hpackage : node.field? (ascii "package") with
    | some package =>
        cases hprofile : node.field? (ascii "profile") with
        | some profile =>
            rw [hpackage, hprofile] at h
            exact (throw_eq_ok.mp h).elim
        | none =>
            rw [hpackage, hprofile] at h
            change (scalarValue context package _ >>= fun name => _) = _ at h
            obtain ⟨name, hname, h⟩ := bind_eq_ok.mp h
            rw [scalarValue_eq_ok_iff] at hname
            rw [semanticValue_eq_ok_iff] at h
            exact .package name hkeys ⟨package, hpackage, hname⟩ hprofile h
    | none =>
        cases hprofile : node.field? (ascii "profile") with
        | some profile =>
            rw [hpackage, hprofile] at h
            change (scalarValue context profile _ >>= fun name => _) = _ at h
            obtain ⟨name, hname, h⟩ := bind_eq_ok.mp h
            rw [scalarValue_eq_ok_iff] at hname
            rw [semanticValue_eq_ok_iff] at h
            exact .profile name hkeys hpackage ⟨profile, hprofile, hname⟩ h
        | none =>
            rw [hpackage, hprofile] at h
            exact (throw_eq_ok.mp h).elim
  · intro h
    cases h with
    | package name hkeys hpackage hprofile haccepted =>
        obtain ⟨package, hpackage, hname⟩ := hpackage
        refine ⟨(), (allowKeys_eq_ok_iff hvalid).mpr hkeys, ?_⟩
        refine bind_eq_ok.mpr ⟨_, (findKey_eq_ok_iff hvalid hkeys.1).mpr hpackage, ?_⟩
        refine bind_eq_ok.mpr ⟨_, (findKey_eq_ok_iff hvalid hkeys.1).mpr hprofile, ?_⟩
        exact bind_eq_ok.mpr ⟨name, scalarValue_eq_ok_iff.mpr hname,
          semanticValue_eq_ok_iff.mpr haccepted⟩
    | profile name hkeys hpackage hprofile haccepted =>
        obtain ⟨profile, hprofile, hname⟩ := hprofile
        refine ⟨(), (allowKeys_eq_ok_iff hvalid).mpr hkeys, ?_⟩
        refine bind_eq_ok.mpr ⟨_, (findKey_eq_ok_iff hvalid hkeys.1).mpr hpackage, ?_⟩
        refine bind_eq_ok.mpr ⟨_, (findKey_eq_ok_iff hvalid hkeys.1).mpr hprofile, ?_⟩
        exact bind_eq_ok.mpr ⟨name, scalarValue_eq_ok_iff.mpr hname,
          semanticValue_eq_ok_iff.mpr haccepted⟩

theorem programValue_eq_ok_iff {node : Node} {path : Bytes} {program : core.Program}
    (hvalid : node.Valid) :
    programValue core context node path = .ok program ↔ IsProgram core node program := by
  simp only [programValue, bind_eq_ok, Context.fail, ite_throw_eq_ok, not_not,
    scalarValue_eq_ok_iff, semanticValue_eq_ok_iff]
  constructor
  · rintro ⟨_, hkeys, languageNode, hlanguageNode, scriptNode, hscriptNode, language, hlanguage,
      rfl, material, hmaterial, haccepted⟩
    rw [← programKeys, allowKeys_eq_ok_iff hvalid] at hkeys
    rw [requiredKey_eq_ok_iff hvalid hkeys.1] at hlanguageNode hscriptNode
    exact ⟨hkeys, ⟨languageNode, hlanguageNode, hlanguage⟩,
      ⟨material, ⟨scriptNode, hscriptNode, hmaterial⟩, haccepted⟩⟩
  · rintro ⟨hkeys, ⟨languageNode, hlanguageNode, hlanguage⟩, material,
      ⟨scriptNode, hscriptNode, hmaterial⟩, haccepted⟩
    exact ⟨(), (allowKeys_eq_ok_iff hvalid).mpr hkeys, languageNode,
      (requiredKey_eq_ok_iff hvalid hkeys.1).mpr hlanguageNode, scriptNode,
      (requiredKey_eq_ok_iff hvalid hkeys.1).mpr hscriptNode, _, hlanguage, rfl, material,
      hmaterial, haccepted⟩

/-! ### Requirements and lifecycle -/

theorem requirementValue_eq_ok_iff {scope : core.RequirementScope} {path : Bytes} {entry : Node}
    {declaration : core.RequirementDeclaration} (hvalid : entry.Valid) :
    requirementValue core context scope path entry = .ok declaration ↔
      IsRequirement core context scope path entry declaration := by
  simp only [requirementValue, bind_eq_ok, propagate_eq_ok_iff, subjectValue_eq_ok_iff hvalid,
    IsRequirement]
  constructor
  · rintro ⟨subject, hsubject, site, hsite, h⟩
    exact ⟨subject, site, hsubject, hsite, h⟩
  · rintro ⟨subject, site, hsubject, hsite, h⟩
    exact ⟨subject, hsubject, site, hsite, h⟩

theorem requirementSequence_eq_ok_iff {node : Node} {path : Bytes}
    {scope : Except CoreError core.RequirementScope}
    {declarations : List core.RequirementDeclaration} (hvalid : node.Valid) :
    requirementSequence core context node path scope = .ok declarations ↔
      IsRequirementSequence core context path scope node declarations := by
  simp only [requirementSequence, bind_eq_ok, propagate_eq_ok_iff, IsRequirementSequence]
  refine exists_congr fun scope' => and_congr_right fun _ => ?_
  exact isItems_iff hvalid fun index entry declaration hentry => requirementValue_eq_ok_iff hentry

theorem name_injective : Function.Injective LifecycleAction.name := by
  intro left right h
  cases left <;> cases right <;> first | rfl | exact absurd h (by decide)

theorem actionValue_eq_ok_iff {text path : Bytes} {node : Node} {action : LifecycleAction} :
    actionValue context text path node = .ok action ↔ text = action.name := by
  change (if text = LifecycleAction.name .preInstall then pure .preInstall
    else if text = LifecycleAction.name .postInstall then pure .postInstall
    else if text = LifecycleAction.name .preRemove then pure .preRemove
    else if text = LifecycleAction.name .postRemove then pure .postRemove
    else context.fail .invalidValue path node.mark _) = Except.ok action ↔ _
  by_cases hpreInstall : text = LifecycleAction.name .preInstall
  · rw [if_pos hpreInstall, pure_eq_ok, hpreInstall, name_injective.eq_iff]
  rw [if_neg hpreInstall]
  by_cases hpostInstall : text = LifecycleAction.name .postInstall
  · rw [if_pos hpostInstall, pure_eq_ok, hpostInstall, name_injective.eq_iff]
  rw [if_neg hpostInstall]
  by_cases hpreRemove : text = LifecycleAction.name .preRemove
  · rw [if_pos hpreRemove, pure_eq_ok, hpreRemove, name_injective.eq_iff]
  rw [if_neg hpreRemove]
  by_cases hpostRemove : text = LifecycleAction.name .postRemove
  · rw [if_pos hpostRemove, pure_eq_ok, hpostRemove, name_injective.eq_iff]
  rw [if_neg hpostRemove, Context.fail, throw_eq_ok, false_iff]
  cases action with
  | preInstall => exact hpreInstall
  | postInstall => exact hpostInstall
  | preRemove => exact hpreRemove
  | postRemove => exact hpostRemove

theorem lifecycleRequirements_eq_ok_iff {node : Node} {path : Bytes}
    {declarations : List core.RequirementDeclaration} (hvalid : node.Valid)
    (hkind : node.kind = .mapping) :
    requirementsValue.lifecycleRequirements core context node path = .ok declarations ↔
      ∃ groups, IsOptional (IsLifecycleRequirements core context
          (childPath path (ascii "lifecycle"))) [] (node.field? (ascii "lifecycle")) groups ∧
        groups.flatten = declarations := by
  rw [requirementsValue.lifecycleRequirements, findKey_eq hvalid hkind]
  cases hfield : node.field? (ascii "lifecycle") with
  | none =>
      change (pure [] : Except Exception (List core.RequirementDeclaration)) = _ ↔ _
      simp [pure_eq_ok, IsOptional]
  | some lifecycle =>
      have hlifecycle := hvalid.field hfield
      change (requireKind _ _ _ _ _ >>= fun _ => _) = _ ↔ _
      simp only [bind_eq_ok, pure_eq_ok, requireKind_eq_ok_iff, IsOptional]
      constructor
      · rintro ⟨found, ⟨hfound, rfl⟩, groups, hgroups, rfl⟩
        refine ⟨groups, (isEntries_iff hlifecycle ?_).mp ⟨hfound, hgroups⟩, rfl⟩
        intro key subjects group hsubjects
        simp only [bind_eq_ok, actionValue_eq_ok_iff, requirementSequence_eq_ok_iff hsubjects]
      · rintro ⟨groups, hgroups, rfl⟩
        refine ⟨lifecycle, ⟨hgroups.1, rfl⟩, groups,
          ((isEntries_iff hlifecycle ?_).mpr hgroups).2, rfl⟩
        intro key subjects group hsubjects
        simp only [bind_eq_ok, actionValue_eq_ok_iff, requirementSequence_eq_ok_iff hsubjects]

theorem scopeRequirements_eq_ok_iff {node : Node} {key path : Bytes}
    {scope : Except CoreError core.RequirementScope}
    {declarations : List core.RequirementDeclaration} (hvalid : node.Valid)
    (hkind : node.kind = .mapping) :
    scopeRequirements core context node key path scope = .ok declarations ↔
      IsOptional (IsRequirementSequence core context (childPath path key) scope) []
        (node.field? key) declarations := by
  rw [scopeRequirements]
  exact isOptional_iff hvalid hkind rfl fun child hchild => requirementSequence_eq_ok_iff hchild

theorem requirementsValue_eq_ok_iff {node : Node} {path : Bytes}
    {declarations : List core.RequirementDeclaration} (hvalid : node.Valid) :
    requirementsValue core context node path = .ok declarations ↔
      ∃ groups, IsRequirements core context path node groups ∧
        groups.flatten core = declarations := by
  simp only [requirementsValue, bind_eq_ok, pure_eq_ok]
  constructor
  · rintro ⟨_, hkeys, build, hbuild, run, hrun, check, hcheck, lifecycle, hlifecycle, rfl⟩
    rw [← requirementKeys, allowKeys_eq_ok_iff hvalid] at hkeys
    rw [scopeRequirements_eq_ok_iff hvalid hkeys.1] at hbuild hrun hcheck
    obtain ⟨groups, hgroups, rfl⟩ := (lifecycleRequirements_eq_ok_iff hvalid hkeys.1).mp hlifecycle
    exact ⟨⟨build, run, check, groups⟩, ⟨hkeys, hbuild, hrun, hcheck, hgroups⟩, rfl⟩
  · rintro ⟨groups, h, rfl⟩
    have hkind := h.keys.1
    exact ⟨(), (allowKeys_eq_ok_iff hvalid).mpr h.keys,
      groups.build, (scopeRequirements_eq_ok_iff hvalid hkind).mpr h.build,
      groups.run, (scopeRequirements_eq_ok_iff hvalid hkind).mpr h.run,
      groups.check, (scopeRequirements_eq_ok_iff hvalid hkind).mpr h.check,
      groups.lifecycle.flatten,
      (lifecycleRequirements_eq_ok_iff hvalid hkind).mpr ⟨groups.lifecycle, h.lifecycle, rfl⟩, rfl⟩

theorem lifecycleValue_eq_ok_iff {node : Node} {path : Bytes}
    {programs : List core.LifecycleProgram} (hvalid : node.Valid) :
    lifecycleValue core context node path = .ok programs ↔ IsLifecycle core node programs := by
  have hentry : ∀ (key child : Node) (value : core.LifecycleProgram), child.Valid →
      ((actionValue context key.scalar (childPath path key.scalar) key >>= fun action =>
        programValue core context child (childPath path key.scalar) >>= fun program =>
          propagate (core.lifecycleProgram action program)) = .ok value ↔
        ∃ (action : LifecycleAction) (program : core.Program), key.scalar = action.name ∧
          IsProgram core child program ∧ core.lifecycleProgram action program = .ok value) := by
    intro key child value hchild
    simp only [bind_eq_ok, actionValue_eq_ok_iff, programValue_eq_ok_iff hchild,
      propagate_eq_ok_iff, exists_and_left]
  rw [lifecycleValue, IsLifecycle, ← @isEntries_iff context _ _ _ _ _ hvalid hentry, bind_eq_ok]
  simp only [requireKind_eq_ok_iff]
  constructor
  · rintro ⟨found, ⟨hkind, rfl⟩, h⟩
    exact ⟨hkind, h⟩
  · rintro ⟨hkind, h⟩
    exact ⟨node, ⟨hkind, rfl⟩, h⟩

/-! ### Architectures and sources -/

theorem architectureSequence_eq_ok_iff {node : Node} {path : Bytes}
    {references : List core.ArchitectureReference} (hvalid : node.Valid) :
    architectureSequence core context node path = .ok references ↔
      IsArchitectureList core node references := by
  rw [architectureSequence, bind_eq_ok]
  apply isItems_iff hvalid
  intro index entry reference _
  simp only [bind_eq_ok, scalarValue_eq_ok_iff, semanticValue_eq_ok_iff]

theorem architectureList_eq_ok_iff {node : Node} {key path : Bytes}
    {references : List core.ArchitectureReference} (hvalid : node.Valid)
    (hkind : node.kind = .mapping) :
    architectureList core context node key path = .ok references ↔
      IsOptional (IsArchitectureList core) [] (node.field? key) references := by
  rw [architectureList]
  exact isOptional_iff hvalid hkind rfl fun child hchild => architectureSequence_eq_ok_iff hchild

theorem architecturesValue_eq_ok_iff {node : Node} {architectures : core.ArchitectureRequirements}
    (hvalid : node.Valid) :
    architecturesValue core context (some node) = .ok architectures ↔
      IsArchitectures core node architectures := by
  simp only [architecturesValue, bind_eq_ok, semanticValue_eq_ok_iff]
  constructor
  · rintro ⟨_, hkeys, build, hbuild, target, htarget, haccepted⟩
    rw [← architectureKeys, allowKeys_eq_ok_iff hvalid] at hkeys
    rw [architectureList_eq_ok_iff hvalid hkeys.1] at hbuild htarget
    exact ⟨hkeys, build, target, hbuild, htarget, haccepted⟩
  · rintro ⟨hkeys, build, target, hbuild, htarget, haccepted⟩
    exact ⟨(), (allowKeys_eq_ok_iff hvalid).mpr hkeys,
      build, (architectureList_eq_ok_iff hvalid hkeys.1).mpr hbuild,
      target, (architectureList_eq_ok_iff hvalid hkeys.1).mpr htarget, haccepted⟩

theorem unpackValue_eq_ok_iff {node : Node} {path : Bytes} {unpack : SourceUnpackKind}
    (hvalid : node.Valid) (hkind : node.kind = .mapping) :
    unpackValue context node path = .ok unpack ↔
      IsOptional IsUnpack .none (node.field? (ascii "unpack")) unpack := by
  rw [unpackValue]
  refine isOptional_iff hvalid hkind rfl fun child _ => ?_
  simp only [bind_eq_ok, scalarValue_eq_ok_iff, Context.fail, ite_throw_eq_ok, pure_eq_ok,
    not_not, IsUnpack]
  constructor
  · rintro ⟨text, htext, rfl, rfl⟩
    exact ⟨htext, rfl⟩
  · rintro ⟨htext, rfl⟩
    exact ⟨_, htext, rfl, rfl⟩

theorem located_eq_ok_iff {node locatorNode : Node} {path key : Bytes}
    {construct : Bytes → Bytes → core.Digest → SourceUnpackKind → Except CoreError core.SourceInput}
    {source : core.SourceInput} (hvalid : node.Valid) (hkind : node.kind = .mapping) :
    sourceValue.located core context path node locatorNode key construct = .ok source ↔
      ∃ name hash content unpack, node.Text (ascii "name") name ∧
        node.Text (ascii "sha256") hash ∧ core.digest .sha256 hash = .ok content ∧
        IsOptional IsUnpack .none (node.field? (ascii "unpack")) unpack ∧
        ∃ locator, locatorNode.IsText locator ∧
          construct locator name content unpack = .ok source := by
  simp only [sourceValue.located, bind_eq_ok, requiredKey_eq_ok_iff hvalid hkind,
    unpackValue_eq_ok_iff hvalid hkind, scalarValue_eq_ok_iff, semanticValue_eq_ok_iff]
  constructor
  · rintro ⟨nameNode, hnameNode, digestNode, hdigestNode, unpack, hunpack, name, hname, hash, hhash,
      content, hcontent, locator, hlocator, haccepted⟩
    exact ⟨name, hash, content, unpack, ⟨nameNode, hnameNode, hname⟩,
      ⟨digestNode, hdigestNode, hhash⟩, hcontent, hunpack, locator, hlocator, haccepted⟩
  · rintro ⟨name, hash, content, unpack, ⟨nameNode, hnameNode, hname⟩,
      ⟨digestNode, hdigestNode, hhash⟩, hcontent, hunpack, locator, hlocator, haccepted⟩
    exact ⟨nameNode, hnameNode, digestNode, hdigestNode, unpack, hunpack, name, hname, hash, hhash,
      content, hcontent, locator, hlocator, haccepted⟩

theorem sourceValue_eq_ok_iff {node : Node} {path : Bytes} {source : core.SourceInput}
    (hvalid : node.Valid) :
    sourceValue core context path node = .ok source ↔ IsSource core node source := by
  rw [sourceValue, bind_eq_ok]
  constructor
  · rintro ⟨_, hkeys, h⟩
    rw [← sourceKeys, allowKeys_eq_ok_iff hvalid] at hkeys
    obtain ⟨url, hurl, h⟩ := bind_eq_ok.mp h
    obtain ⟨localPath, hlocalPath, h⟩ := bind_eq_ok.mp h
    rw [findKey_eq_ok_iff hvalid hkeys.1] at hurl hlocalPath
    cases url with
    | some url =>
        cases localPath with
        | some localPath => simp [Context.fail, throw_eq_ok] at h
        | none =>
            obtain ⟨name, hash, content, unpack, hname, hhash, hcontent, hunpack, locator, hlocator,
              haccepted⟩ := (located_eq_ok_iff hvalid hkeys.1).mp h
            exact ⟨hkeys, name, hash, content, unpack, hname, hhash, hcontent, hunpack,
              .url locator ⟨url, hurl, hlocator⟩ hlocalPath haccepted⟩
    | none =>
        cases localPath with
        | some localPath =>
            obtain ⟨name, hash, content, unpack, hname, hhash, hcontent, hunpack, locator, hlocator,
              haccepted⟩ := (located_eq_ok_iff hvalid hkeys.1).mp h
            exact ⟨hkeys, name, hash, content, unpack, hname, hhash, hcontent, hunpack,
              .path locator hurl ⟨localPath, hlocalPath, hlocator⟩ haccepted⟩
        | none => simp [Context.fail, throw_eq_ok] at h
  · rintro ⟨hkeys, name, hash, content, unpack, hname, hhash, hcontent, hunpack, hlocated⟩
    refine ⟨(), (allowKeys_eq_ok_iff hvalid).mpr hkeys, ?_⟩
    cases hlocated with
    | url locator hurl hpath haccepted =>
        obtain ⟨url, hurl, hlocator⟩ := hurl
        refine bind_eq_ok.mpr ⟨_, (findKey_eq_ok_iff hvalid hkeys.1).mpr hurl, ?_⟩
        refine bind_eq_ok.mpr ⟨_, (findKey_eq_ok_iff hvalid hkeys.1).mpr hpath, ?_⟩
        exact (located_eq_ok_iff hvalid hkeys.1).mpr
          ⟨name, hash, content, unpack, hname, hhash, hcontent, hunpack, locator, hlocator,
            haccepted⟩
    | path locator hurl hpath haccepted =>
        obtain ⟨localPath, hpath, hlocator⟩ := hpath
        refine bind_eq_ok.mpr ⟨_, (findKey_eq_ok_iff hvalid hkeys.1).mpr hurl, ?_⟩
        refine bind_eq_ok.mpr ⟨_, (findKey_eq_ok_iff hvalid hkeys.1).mpr hpath, ?_⟩
        exact (located_eq_ok_iff hvalid hkeys.1).mpr
          ⟨name, hash, content, unpack, hname, hhash, hcontent, hunpack, locator, hlocator,
            haccepted⟩

theorem sourcesValue_eq_ok_iff {node : Node} {path : Bytes} {sources : List core.SourceInput}
    (hvalid : node.Valid) :
    sourcesValue core context node path = .ok sources ↔ IsSources core node sources := by
  rw [sourcesValue, bind_eq_ok]
  exact isItems_iff hvalid fun index entry source hentry => sourceValue_eq_ok_iff hentry

/-! ### The package section -/

theorem packageReleaseValue_eq_ok_iff {node : Node} {release : core.PackageRelease}
    (hvalid : node.Valid) :
    packageReleaseValue core context node = .ok release ↔ IsRelease core node release := by
  simp only [packageReleaseValue, bind_eq_ok, scalarValue_eq_ok_iff, releaseValue_eq_ok_iff,
    semanticValue_eq_ok_iff]
  constructor
  · rintro ⟨_, hkeys, nameNode, hnameNode, versionNode, hversionNode, releaseNode, hreleaseNode,
      name, hname, version, hversion, number, ⟨text, htext, hnumber⟩, haccepted⟩
    rw [← packageKeys, allowKeys_eq_ok_iff hvalid] at hkeys
    rw [requiredKey_eq_ok_iff hvalid hkeys.1] at hnameNode hversionNode hreleaseNode
    exact ⟨name, version, number, ⟨hkeys, ⟨nameNode, hnameNode, hname⟩,
      ⟨versionNode, hversionNode, hversion⟩, text, ⟨releaseNode, hreleaseNode, htext⟩, hnumber⟩,
      haccepted⟩
  · rintro ⟨name, version, number, ⟨hkeys, ⟨nameNode, hnameNode, hname⟩,
      ⟨versionNode, hversionNode, hversion⟩, text, ⟨releaseNode, hreleaseNode, htext⟩, hnumber⟩,
      haccepted⟩
    exact ⟨(), (allowKeys_eq_ok_iff hvalid).mpr hkeys,
      nameNode, (requiredKey_eq_ok_iff hvalid hkeys.1).mpr hnameNode,
      versionNode, (requiredKey_eq_ok_iff hvalid hkeys.1).mpr hversionNode,
      releaseNode, (requiredKey_eq_ok_iff hvalid hkeys.1).mpr hreleaseNode,
      name, hname, version, hversion, number, ⟨text, htext, hnumber⟩, haccepted⟩

theorem optionalScalar_eq_ok_iff {node : Node} {key path : Bytes} {text : Option Bytes}
    (hvalid : node.Valid) (hkind : node.kind = .mapping) :
    optionalScalar context node key path = .ok text ↔
      IsOptional IsOptionalText none (node.field? key) text := by
  rw [optionalScalar]
  refine isOptional_iff hvalid hkind rfl fun child _ => ?_
  simp only [bind_eq_ok, scalarValue_eq_ok_iff, pure_eq_ok, IsOptionalText, @eq_comm _ text]

theorem licenses_eq_ok_iff {list : Node} {path : Bytes} {licenses : List Bytes}
    (hvalid : list.Valid) :
    (∃ entries, sequenceValue context list path = .ok entries ∧
        eachItem path (fun itemPath entry => scalarValue context entry itemPath) entries 0 =
          .ok licenses) ↔
      IsItems (fun _ => Node.IsText) list licenses :=
  isItems_iff hvalid fun _ _ _ _ => scalarValue_eq_ok_iff

theorem packageMetadataValue_eq_ok_iff {node : Node} {metadata : core.PackageMetadata}
    (hvalid : node.Valid) (hkind : node.kind = .mapping) :
    packageMetadataValue core context node = .ok metadata ↔ IsMetadata core node metadata := by
  simp only [packageMetadataValue, bind_eq_ok, requiredKey_eq_ok_iff hvalid hkind,
    optionalScalar_eq_ok_iff hvalid hkind, semanticValue_eq_ok_iff]
  constructor
  · rintro ⟨summaryNode, hsummaryNode, list, hlist, summary, hsummary, description, hdescription,
      homepage, hhomepage, entries, hentries, licenses, hvalues, haccepted⟩
    rw [scalarValue_eq_ok_iff] at hsummary
    exact ⟨summary, description, homepage, licenses,
      ⟨⟨summaryNode, hsummaryNode, hsummary⟩, hdescription, hhomepage, list, hlist,
        (licenses_eq_ok_iff (hvalid.field hlist)).mp ⟨entries, hentries, hvalues⟩⟩, haccepted⟩
  · rintro ⟨summary, description, homepage, licenses,
      ⟨⟨summaryNode, hsummaryNode, hsummary⟩, hdescription, hhomepage, list, hlist, hitems⟩,
      haccepted⟩
    obtain ⟨entries, hentries, hvalues⟩ := (licenses_eq_ok_iff (hvalid.field hlist)).mpr hitems
    exact ⟨summaryNode, hsummaryNode, list, hlist, summary, scalarValue_eq_ok_iff.mpr hsummary,
      description, hdescription, homepage, hhomepage, entries, hentries, licenses, hvalues,
      haccepted⟩

/-! ### The document -/

theorem requireFormat_eq_ok_iff {root : Node} {expected : Bytes} (hvalid : root.Valid)
    (hkind : root.kind = .mapping) :
    requireFormat context root expected = .ok () ↔ root.Text (ascii "format") expected := by
  simp only [requireFormat, bind_eq_ok, requiredKey_eq_ok_iff hvalid hkind, scalarValue_eq_ok_iff,
    Context.fail, ite_throw_eq_ok, not_not, pure_eq_ok]
  constructor
  · rintro ⟨format, hformat, text, htext, rfl, -⟩
    exact ⟨format, hformat, htext⟩
  · rintro ⟨format, hformat, htext⟩
    exact ⟨format, hformat, expected, htext, rfl, trivial⟩

theorem checkValue_eq_ok_iff {root : Node} {check : Option core.Program} (hvalid : root.Valid)
    (hkind : root.kind = .mapping) :
    checkValue core context root = .ok check ↔
      IsOptional (fun node check => ∃ program, IsProgram core node program ∧ check = some program)
        none (root.field? (ascii "check")) check := by
  rw [checkValue]
  refine isOptional_iff hvalid hkind rfl fun child hchild => ?_
  simp only [bind_eq_ok, programValue_eq_ok_iff hchild, pure_eq_ok, @eq_comm _ check]

theorem lifecyclePrograms_eq_ok_iff {root : Node} {programs : List core.LifecycleProgram}
    (hvalid : root.Valid) (hkind : root.kind = .mapping) :
    lifecyclePrograms core context root = .ok programs ↔
      IsOptional (IsLifecycle core) [] (root.field? (ascii "lifecycle")) programs := by
  rw [lifecyclePrograms]
  exact isOptional_iff hvalid hkind rfl fun child hchild => lifecycleValue_eq_ok_iff hchild

/-- What `parse_recipe_yaml` checks before its last call. -/
structure IsRecipeHeader (root : Node) (sections : RecipeSections)
    (lifecycle : List core.LifecycleProgram) (check : Option core.Program) : Prop where
  document : sections.root = root
  keys : root.HasKeys recipeKeys
  format : root.Text (ascii "format") (ascii "zeppe-lin.recipe/1")
  package : root.field? (ascii "package") = some sections.package
  mapping : sections.package.kind = .mapping
  requirements : root.field? (ascii "requirements") = some sections.requirements
  sources : root.field? (ascii "sources") = some sections.sources
  build : root.field? (ascii "build") = some sections.build
  check : IsOptional (fun node check => ∃ program, IsProgram core node program ∧
    check = some program) none (root.field? (ascii "check")) check
  lifecycle : IsOptional (IsLifecycle core) [] (root.field? (ascii "lifecycle")) lifecycle

theorem recipeSections_eq_ok_iff {root : Node} {sections : RecipeSections}
    {lifecycle : List core.LifecycleProgram} {check : Option core.Program} (hvalid : root.Valid) :
    recipeSections core context root = .ok (sections, lifecycle, check) ↔
      IsRecipeHeader root sections lifecycle check := by
  simp only [recipeSections, bind_eq_ok, pure_eq_ok, requireKind_eq_ok_iff]
  constructor
  · rintro ⟨_, hkeys, _, hformat, package, hpackage, _, ⟨hmapping, rfl⟩, requirements,
      hrequirements, sources, hsources, build, hbuild, check, hcheck, lifecycle, hlifecycle, h⟩
    rw [← recipeKeys, allowKeys_eq_ok_iff hvalid] at hkeys
    rw [requiredKey_eq_ok_iff hvalid hkeys.1] at hpackage hrequirements hsources hbuild
    obtain ⟨rfl, rfl, rfl⟩ : _ ∧ _ ∧ _ := by simpa only [Prod.mk.injEq] using h
    exact ⟨rfl, hkeys, (requireFormat_eq_ok_iff hvalid hkeys.1).mp hformat, hpackage, hmapping,
      hrequirements, hsources, hbuild, (checkValue_eq_ok_iff hvalid hkeys.1).mp hcheck,
      (lifecyclePrograms_eq_ok_iff hvalid hkeys.1).mp hlifecycle⟩
  · rintro ⟨rfl, hkeys, hformat, hpackage, hmapping, hrequirements, hsources, hbuild, hcheck,
      hlifecycle⟩
    exact ⟨(), (allowKeys_eq_ok_iff hvalid).mpr hkeys,
      (), (requireFormat_eq_ok_iff hvalid hkeys.1).mpr hformat,
      _, (requiredKey_eq_ok_iff hvalid hkeys.1).mpr hpackage, _, ⟨hmapping, rfl⟩,
      _, (requiredKey_eq_ok_iff hvalid hkeys.1).mpr hrequirements,
      _, (requiredKey_eq_ok_iff hvalid hkeys.1).mpr hsources,
      _, (requiredKey_eq_ok_iff hvalid hkeys.1).mpr hbuild,
      _, (checkValue_eq_ok_iff hvalid hkeys.1).mpr hcheck,
      _, (lifecyclePrograms_eq_ok_iff hvalid hkeys.1).mpr hlifecycle, rfl⟩

theorem recipeArchitectures_eq_ok_iff {root : Node}
    {architectures : core.ArchitectureRequirements} (hvalid : root.Valid)
    (hkind : root.kind = .mapping) :
    (findKey context root (ascii "architectures") >>= architecturesValue core context) =
        .ok architectures ↔
      IsRecipeArchitectures core root architectures := by
  rw [findKey_eq hvalid hkind, IsRecipeArchitectures]
  change architecturesValue core context (root.field? (ascii "architectures")) = _ ↔ _
  cases hfield : root.field? (ascii "architectures") with
  | none => exact propagate_eq_ok_iff
  | some node => exact architecturesValue_eq_ok_iff (hvalid.field hfield)

/-- In every evaluation order, the recipe grammar decides what `parse_recipe_yaml` makes of a tree,
and what it passes to `recipe_declaration`. -/
theorem recipeValue_eq_ok_iff {order : EvaluationOrder} {root : Node}
    {declaration : core.RecipeDeclaration} (hvalid : root.Valid) :
    recipeValue core context order root = .ok declaration ↔
      ∃ fields, IsRecipe core context root fields ∧ fields.declare core = .ok declaration := by
  rw [recipeValue, bind_eq_ok]
  constructor
  · rintro ⟨⟨sections, lifecycle, check⟩, hheader, hcall⟩
    rw [recipeSections_eq_ok_iff hvalid] at hheader
    obtain ⟨values, hvalues, hdeclaration⟩ := Unsequenced.call_eq_ok_iff.mp hcall
    obtain ⟨rfl, hkeys, hformat, hpackage, hmapping, hrequirements, hsources, hbuild, hcheck,
      hlifecycle⟩ := hheader
    obtain ⟨groups, hgroups, hflatten⟩ :=
      (requirementsValue_eq_ok_iff (hvalid.field hrequirements)).mp (hvalues .requirements)
    refine ⟨⟨values .release, values .metadata, values .sources, values .build, groups, lifecycle,
      values .architectures, values .provenance, check⟩, ?_, ?_⟩
    · exact ⟨hkeys, hformat,
        ⟨_, hpackage, hmapping,
          (packageReleaseValue_eq_ok_iff (hvalid.field hpackage)).mp (hvalues .release),
          (packageMetadataValue_eq_ok_iff (hvalid.field hpackage) hmapping).mp
            (hvalues .metadata)⟩,
        ⟨_, hrequirements, hgroups⟩,
        ⟨_, hsources, (sourcesValue_eq_ok_iff (hvalid.field hsources)).mp (hvalues .sources)⟩,
        ⟨_, hbuild, (programValue_eq_ok_iff (hvalid.field hbuild)).mp (hvalues .build)⟩,
        hcheck, hlifecycle,
        (recipeArchitectures_eq_ok_iff hvalid hkeys.1).mp (hvalues .architectures),
        propagate_eq_ok_iff.mp (hvalues .provenance)⟩
    · rw [propagate_eq_ok_iff, ← hflatten] at hdeclaration
      exact hdeclaration
  · rintro ⟨fields, h, hdeclaration⟩
    obtain ⟨package, hpackage, hmapping, hrelease, hmetadata⟩ := h.package
    obtain ⟨requirements, hrequirements, hgroups⟩ := h.requirements
    obtain ⟨sources, hsources, hsourceList⟩ := h.sources
    obtain ⟨build, hbuild, hprogram⟩ := h.build
    refine ⟨(⟨root, package, requirements, sources, build⟩, fields.lifecycle, fields.check),
      (recipeSections_eq_ok_iff hvalid).mpr ⟨rfl, h.keys, h.format, hpackage, hmapping,
        hrequirements, hsources, hbuild, h.check, h.lifecycle⟩, ?_⟩
    refine Unsequenced.call_eq_ok_iff.mpr ⟨fun argument => @RecipeArgument.casesOn
      (RecipeArgument.Value core) argument fields.release fields.metadata fields.sources
      fields.build (fields.requirements.flatten core) fields.architectures fields.provenance,
      fun argument => ?_, propagate_eq_ok_iff.mpr hdeclaration⟩
    cases argument with
    | release => exact (packageReleaseValue_eq_ok_iff (hvalid.field hpackage)).mpr hrelease
    | metadata =>
        exact (packageMetadataValue_eq_ok_iff (hvalid.field hpackage) hmapping).mpr hmetadata
    | sources => exact (sourcesValue_eq_ok_iff (hvalid.field hsources)).mpr hsourceList
    | build => exact (programValue_eq_ok_iff (hvalid.field hbuild)).mpr hprogram
    | requirements =>
        exact (requirementsValue_eq_ok_iff (hvalid.field hrequirements)).mpr
          ⟨fields.requirements, hgroups, rfl⟩
    | architectures =>
        exact (recipeArchitectures_eq_ok_iff hvalid h.keys.1).mpr h.architectures
    | provenance => exact propagate_eq_ok_iff.mpr h.provenance

end PkgsourceYaml
