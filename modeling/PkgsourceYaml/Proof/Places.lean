import PkgsourceYaml.Places
import PkgsourceYaml.Libyaml
import PkgsourceYaml.Proof.Containment
import Mathlib.Data.List.Nodup

/-!
# Declarations are exactly located and uniquely identified

A path is built by appending an index in brackets to a prefix without brackets, so it can be taken
apart again. Distinct keys and distinct positions then make distinct paths.
-/

namespace PkgsourceYaml

open Throwing

variable {core : Core} {context : Context}

/-! ### Paths can be taken apart -/

theorem indexed_eq (path : Bytes) (index : Nat) :
    indexed path index = path ++ 91 :: (decimal index ++ [93]) := by
  rw [indexed, List.append_assoc, List.append_assoc]
  rfl

theorem bracket_mem_indexed (path : Bytes) (index : Nat) : 91 ∈ indexed path index := by
  rw [indexed_eq]
  exact List.mem_append_right _ List.mem_cons_self

theorem bracket_notMem_decimal (n : Nat) : 91 ∉ decimal n := by
  intro h
  have hdigit := isDigit_iff.mp (isDigit_of_mem_decimal h)
  exact absurd hdigit.2 (by decide)

/-- Behind a prefix without brackets, an index can be read back. -/
theorem indexed_inj {path path' : Bytes} {index index' : Nat} (hpath : 91 ∉ path)
    (h : indexed path index = indexed path' index') : path = path' ∧ index = index' := by
  have hrest : 91 ∉ decimal index ++ [93] := by
    rw [List.mem_append, List.mem_singleton, not_or]
    exact ⟨bracket_notMem_decimal index, by decide⟩
  rw [indexed_eq, indexed_eq, List.append_cons_inj_of_notMem hpath hrest] at h
  exact ⟨h.1, decimal_injective (List.append_cancel_right h.2.2)⟩

theorem ScopeName.bracket_notMem_path (name : ScopeName) : 91 ∉ name.path := by
  cases name with
  | lifecycle action => cases action <;> decide
  | _ => decide

theorem ScopeName.path_injective : Function.Injective ScopeName.path := by
  intro left right h
  cases left with
  | lifecycle action =>
      cases right with
      | lifecycle action' =>
          have hname : action.name = action'.name := List.append_cancel_left h
          rw [name_injective hname]
      | _ => cases action <;> exact absurd h (by decide)
  | _ =>
      cases right with
      | lifecycle action => cases action <;> exact absurd h (by decide)
      | _ => first | rfl | exact absurd h (by decide)

/-! ### Requirements -/

theorem named?_name (action : LifecycleAction) :
    LifecycleAction.named? action.name = some action := by
  cases action <;> decide

theorem name_of_named? {text : Bytes} {action : LifecycleAction}
    (h : LifecycleAction.named? text = some action) : action.name = text := by
  simpa using List.find?_some h

theorem name_of_mem_scopeEntries {name : ScopeName} {sequence : Node} {entry : RequirementEntry}
    (h : entry ∈ scopeEntries name sequence) : entry.name = name := by
  obtain ⟨item, -, rfl⟩ := List.mem_map.mp h
  rfl

theorem node_mem_scopeEntries {name : ScopeName} {sequence : Node} {entry : RequirementEntry}
    (h : entry ∈ scopeEntries name sequence) : entry.node ∈ sequence.children := by
  obtain ⟨item, hitem, rfl⟩ := List.mem_map.mp h
  rw [← List.zipIdx_map_fst 0 sequence.children]
  exact List.mem_map_of_mem hitem

/-- What tells the entries of one document apart. -/
def RequirementEntry.position (entry : RequirementEntry) : ScopeName × Nat :=
  (entry.name, entry.index)

theorem nodup_scopeEntries (name : ScopeName) (sequence : Node) :
    ((scopeEntries name sequence).map RequirementEntry.position).Nodup := by
  have hindices : (sequence.children.zipIdx.map Prod.snd).Nodup := by
    rw [List.zipIdx_map_snd]
    exact List.nodup_range'
  have hpositions : (scopeEntries name sequence).map RequirementEntry.position =
      (sequence.children.zipIdx.map Prod.snd).map (Prod.mk name) := by
    rw [scopeEntries, List.map_map, List.map_map]
    rfl
  rw [hpositions]
  refine List.Nodup.map (fun left right h => ?_) hindices
  exact (Prod.mk.inj h).2

/-- The entries under an optional key of `requirements`. -/
def optionalEntries (name : ScopeName) (found : Option Node) : List RequirementEntry :=
  found.elim [] (scopeEntries name)

theorem nodup_optionalEntries (name : ScopeName) (found : Option Node) :
    ((optionalEntries name found).map RequirementEntry.position).Nodup := by
  cases found with
  | none => exact List.nodup_nil
  | some sequence => exact nodup_scopeEntries name sequence

theorem name_of_mem_optionalEntries {name : ScopeName} {found : Option Node}
    {entry : RequirementEntry} (h : entry ∈ optionalEntries name found) : entry.name = name := by
  cases found with
  | none => exact absurd h List.not_mem_nil
  | some sequence => exact name_of_mem_scopeEntries h

theorem name_of_mem_actionEntries {pair : Node × Node} {entry : RequirementEntry}
    (h : entry ∈ actionEntries pair) :
    ∃ action : LifecycleAction, entry.name = .lifecycle action ∧ action.name = pair.1.scalar := by
  unfold actionEntries at h
  cases haction : LifecycleAction.named? pair.1.scalar with
  | none => simp [haction] at h
  | some action =>
      rw [haction] at h
      exact ⟨action, name_of_mem_scopeEntries h, name_of_named? haction⟩

theorem nodup_actionEntries (pair : Node × Node) :
    ((actionEntries pair).map RequirementEntry.position).Nodup := by
  unfold actionEntries
  cases LifecycleAction.named? pair.1.scalar with
  | none => exact List.nodup_nil
  | some action => exact nodup_scopeEntries _ _

/-- Distinct keys name distinct actions. -/
theorem nodup_lifecycleEntries {node : Node} (h : node.KeysAdmitted) :
    ((node.pairs.flatMap actionEntries).map RequirementEntry.position).Nodup := by
  rw [List.map_flatMap, List.nodup_flatMap]
  refine ⟨fun pair _ => nodup_actionEntries pair, ?_⟩
  have hdistinct : node.pairs.Pairwise fun left right => left.1.scalar ≠ right.1.scalar :=
    List.pairwise_map.mp h.distinct
  refine hdistinct.imp fun {left right} hne => ?_
  intro position hleft hright
  obtain ⟨entry, hentry, rfl⟩ := List.mem_map.mp hleft
  obtain ⟨other, hother, hposition⟩ := List.mem_map.mp hright
  obtain ⟨action, hname, haction⟩ := name_of_mem_actionEntries hentry
  obtain ⟨action', hname', haction'⟩ := name_of_mem_actionEntries hother
  have hsame : other.name = entry.name := congrArg Prod.fst hposition
  rw [hname, hname', ScopeName.lifecycle.injEq] at hsame
  exact hne (by rw [← haction, ← haction', hsame])

/-- Entries in different scopes stand at different positions. -/
theorem nodup_positions_append {left right : List RequirementEntry}
    (hleft : (left.map RequirementEntry.position).Nodup)
    (hright : (right.map RequirementEntry.position).Nodup)
    (h : ∀ entry ∈ left, ∀ other ∈ right, entry.name ≠ other.name) :
    ((left ++ right).map RequirementEntry.position).Nodup := by
  rw [List.map_append]
  refine hleft.append hright fun position hposition hposition' => ?_
  obtain ⟨entry, hentry, rfl⟩ := List.mem_map.mp hposition
  obtain ⟨other, hother, hsame⟩ := List.mem_map.mp hposition'
  exact h entry hentry other hother (congrArg Prod.fst hsame).symm

/-- The entries under the `lifecycle` key of `requirements`. -/
def lifecycleEntries (found : Option Node) : List RequirementEntry :=
  found.elim [] fun node => node.pairs.flatMap actionEntries

theorem name_of_mem_lifecycleEntries {found : Option Node} {entry : RequirementEntry}
    (h : entry ∈ lifecycleEntries found) : ∃ action, entry.name = .lifecycle action := by
  cases found with
  | none => exact absurd h List.not_mem_nil
  | some node =>
      obtain ⟨pair, -, hpair⟩ := List.mem_flatMap.mp h
      obtain ⟨action, hname, -⟩ := name_of_mem_actionEntries hpair
      exact ⟨action, hname⟩

theorem requirementEntries_eq (requirements : Node) : requirements.requirementEntries =
    optionalEntries .build (requirements.field? (ascii "build")) ++
      (optionalEntries .run (requirements.field? (ascii "run")) ++
        (optionalEntries .check (requirements.field? (ascii "check")) ++
          lifecycleEntries (requirements.field? (ascii "lifecycle")))) := by
  rw [Node.requirementEntries, List.append_assoc, List.append_assoc]
  rfl

theorem nodup_requirementEntries {requirements : Node} (hvalid : requirements.Valid)
    (hlifecycle : ∀ node, requirements.field? (ascii "lifecycle") = some node →
      node.kind = .mapping) :
    (requirements.requirementEntries.map RequirementEntry.position).Nodup := by
  have hactions : ((lifecycleEntries (requirements.field? (ascii "lifecycle"))).map
      RequirementEntry.position).Nodup := by
    cases hfield : requirements.field? (ascii "lifecycle") with
    | none => exact List.nodup_nil
    | some node =>
        exact nodup_lifecycleEntries ((hvalid.field hfield).admitted (hlifecycle node hfield))
  rw [requirementEntries_eq]
  refine nodup_positions_append (nodup_optionalEntries _ _) (nodup_positions_append
    (nodup_optionalEntries _ _) (nodup_positions_append (nodup_optionalEntries _ _) hactions ?_) ?_)
    ?_
  · intro entry hentry other hother
    obtain ⟨action, hname⟩ := name_of_mem_lifecycleEntries hother
    rw [name_of_mem_optionalEntries hentry, hname]
    simp
  · intro entry hentry other hother
    rw [name_of_mem_optionalEntries hentry]
    rcases List.mem_append.mp hother with hother | hother
    · simp [name_of_mem_optionalEntries hother]
    · obtain ⟨action, hname⟩ := name_of_mem_lifecycleEntries hother
      simp [hname]
  · intro entry hentry other hother
    rw [name_of_mem_optionalEntries hentry]
    rcases List.mem_append.mp hother with hother | hother
    · simp [name_of_mem_optionalEntries hother]
    rcases List.mem_append.mp hother with hother | hother
    · simp [name_of_mem_optionalEntries hother]
    · obtain ⟨action, hname⟩ := name_of_mem_lifecycleEntries hother
      simp [hname]

theorem nodup_recipePlaces {root requirements : Node} (hvalid : requirements.Valid)
    (hlifecycle : ∀ node, requirements.field? (ascii "lifecycle") = some node →
      node.kind = .mapping) :
    ((recipePlaces root requirements).map Place.path).Nodup := by
  have hpaths : (requirements.requirementEntries.map RequirementEntry.place).map Place.path =
      (requirements.requirementEntries.map RequirementEntry.position).map fun position =>
        indexed position.1.path position.2 := by
    rw [List.map_map, List.map_map]
    rfl
  rw [recipePlaces, List.map_cons, List.nodup_cons, hpaths]
  constructor
  · intro h
    obtain ⟨position, -, hposition⟩ := List.mem_map.mp h
    have hbracket := bracket_mem_indexed position.1.path position.2
    rw [hposition] at hbracket
    change 91 ∈ ascii "document" at hbracket
    exact absurd hbracket (by decide)
  · refine List.Nodup.map ?_ (nodup_requirementEntries hvalid hlifecycle)
    intro left right h
    obtain ⟨hpath, hindex⟩ := indexed_inj left.1.bracket_notMem_path h
    exact Prod.ext (ScopeName.path_injective hpath) hindex

theorem declares_scopeEntries (name : ScopeName) {sequence : Node}
    {declarations : List core.RequirementDeclaration}
    (h : IsRequirementSequence core context name.path (name.scope core) sequence declarations) :
    List.Forall₂ (RequirementEntry.Declares core context.origin) (scopeEntries name sequence)
      declarations := by
  obtain ⟨scope, hscope, -, hitems⟩ := h
  rw [scopeEntries, List.forall₂_map_left_iff]
  refine hitems.imp fun item declaration hitem => ?_
  obtain ⟨subject, site, hsubject, hsite, hdeclaration⟩ := hitem
  exact ⟨scope, subject, site, hscope, hsubject, hsite, hdeclaration⟩

theorem declares_optionalEntries (name : ScopeName) {found : Option Node}
    {declarations : List core.RequirementDeclaration}
    (h : IsOptional (IsRequirementSequence core context name.path (name.scope core)) [] found
      declarations) :
    List.Forall₂ (RequirementEntry.Declares core context.origin) (optionalEntries name found)
      declarations := by
  cases found with
  | none =>
      obtain rfl : declarations = [] := h
      exact List.Forall₂.nil
  | some sequence => exact declares_scopeEntries name h

theorem childPath_lifecycle (key : Bytes) :
    childPath (childPath (ascii "requirements") (ascii "lifecycle")) key =
      ascii "requirements.lifecycle." ++ key := by
  rw [childPath, if_neg (by decide)]
  rfl

theorem declares_lifecycleEntries {found : Option Node}
    {groups : List (List core.RequirementDeclaration)}
    (h : IsOptional (IsLifecycleRequirements core context
      (childPath (ascii "requirements") (ascii "lifecycle"))) [] found groups) :
    List.Forall₂ (RequirementEntry.Declares core context.origin) (lifecycleEntries found)
      groups.flatten := by
  cases found with
  | none =>
      obtain rfl : groups = [] := h
      exact List.Forall₂.nil
  | some node =>
      have hgroups : List.Forall₂
          (List.Forall₂ (RequirementEntry.Declares core context.origin))
          (node.pairs.map actionEntries) groups := by
        rw [List.forall₂_map_left_iff]
        refine h.2.imp fun pair group hgroup => ?_
        obtain ⟨action, hname, hsequence⟩ := hgroup
        rw [childPath_lifecycle, hname] at hsequence
        rw [actionEntries, hname, named?_name]
        exact declares_scopeEntries (.lifecycle action) hsequence
      exact List.rel_flatten hgroups

theorem declares_requirementEntries {requirements : Node} {groups : RequirementGroups core}
    (h : IsRequirements core context (ascii "requirements") requirements groups) :
    List.Forall₂ (RequirementEntry.Declares core context.origin) requirements.requirementEntries
      (groups.flatten core) := by
  have hbuild := declares_optionalEntries .build h.build
  have hrun := declares_optionalEntries .run h.run
  have hcheck := declares_optionalEntries .check h.check
  rw [requirementEntries_eq, RequirementGroups.flatten, List.append_assoc, List.append_assoc]
  exact List.rel_append hbuild (List.rel_append hrun
    (List.rel_append hcheck (declares_lifecycleEntries h.lifecycle)))

/-- Each program of a lifecycle is built for the action its key names, so no two share one. -/
theorem declares_actions {node : Node} {programs : List core.LifecycleProgram}
    (hadmitted : node.KeysAdmitted) (h : IsLifecycle core node programs) :
    ∃ actions : List LifecycleAction, actions.Nodup ∧
      List.Forall₂ (fun action program => ∃ body, core.lifecycleProgram action body = .ok program)
        actions programs := by
  have hpairs : List.Forall₂ (fun pair program => ∃ action : LifecycleAction,
      pair.1.scalar = action.name ∧ ∃ body, core.lifecycleProgram action body = .ok program)
      node.pairs programs := by
    refine h.2.imp fun pair program hprogram => ?_
    obtain ⟨action, body, hname, -, hbody⟩ := hprogram
    exact ⟨action, hname, body, hbody⟩
  obtain ⟨actions, hnames, hprograms⟩ := Entrywise.exists_between hpairs
  have hmap : node.pairs.map (·.1.scalar) = actions.map LifecycleAction.name :=
    Entrywise.map_eq_of_forall₂ (fun _ _ hname => hname) hnames
  have hdistinct := hadmitted.distinct
  rw [hmap] at hdistinct
  exact ⟨actions, List.Nodup.of_map _ hdistinct, hprograms⟩

theorem locatedRecipe {root : Node} {fields : RecipeFields core} (hvalid : root.Valid)
    (h : IsRecipe core context root fields) :
    ∃ requirements, root.field? (ascii "requirements") = some requirements ∧
      LocatedRecipe core context.origin root requirements fields := by
  obtain ⟨requirements, hfield, hrequirements⟩ := h.requirements
  have hlifecycle : ∀ node, requirements.field? (ascii "lifecycle") = some node →
      node.kind = .mapping := by
    intro node hnode
    have hgroups := hrequirements.lifecycle
    rw [hnode] at hgroups
    exact hgroups.1
  refine ⟨requirements, hfield, declares_requirementEntries hrequirements, h.provenance,
    nodup_recipePlaces (hvalid.field hfield) hlifecycle, ?_⟩
  have hprograms := h.lifecycle
  cases hnode : root.field? (ascii "lifecycle") with
  | none =>
      rw [hnode] at hprograms
      have hnone : fields.lifecycle = [] := hprograms
      rw [hnone]
      exact ⟨[], List.nodup_nil, List.Forall₂.nil⟩
  | some node =>
      rw [hnode] at hprograms
      have hmapping : node.kind = .mapping := hprograms.1
      exact declares_actions ((hvalid.field hnode).admitted hmapping) hprograms

/-! ### Profiles -/

/-- `libpkgsource` refuses a profile name with an opening bracket. -/
def RefusesBrackets (core : Core) : Prop :=
  ∀ name reference, core.profileReference name = .ok reference → 91 ∉ name

theorem bracket_notMem_profilePath {key : Bytes} (h : 91 ∉ key) : 91 ∉ profilePath key := by
  rw [profilePath, List.mem_append, not_or]
  exact ⟨by decide, h⟩

theorem bracket_notMem_members {key : Bytes} (h : 91 ∉ key) :
    91 ∉ profilePath key ++ ascii ".members" := by
  rw [List.mem_append, not_or]
  exact ⟨bracket_notMem_profilePath h, by decide⟩

theorem profilePath_injective : Function.Injective profilePath :=
  fun _ _ h => List.append_cancel_left h

theorem path_of_mem_profilePlaces {pair : Node × Node} {place : Place}
    (h : place ∈ profilePlaces pair) :
    place.path = profilePath pair.1.scalar ∨
      ∃ index, place.path = memberPath pair.1.scalar index := by
  rcases List.mem_cons.mp h with rfl | h
  · exact Or.inl rfl
  · obtain ⟨entry, -, rfl⟩ := List.mem_map.mp h
    exact Or.inr ⟨entry.2, rfl⟩

theorem nodup_profilePlaces {pair : Node × Node} (h : 91 ∉ pair.1.scalar) :
    ((profilePlaces pair).map Place.path).Nodup := by
  have hindices : ((memberEntries pair.2).map Prod.snd).Nodup := by
    unfold memberEntries
    cases pair.2.field? (ascii "members") with
    | none => exact List.nodup_nil
    | some list =>
        rw [Option.elim_some, List.zipIdx_map_snd]
        exact List.nodup_range'
  have hpaths : ((memberEntries pair.2).map (memberPlace pair.1)).map Place.path =
      ((memberEntries pair.2).map Prod.snd).map (memberPath pair.1.scalar) := by
    rw [List.map_map, List.map_map]
    rfl
  rw [profilePlaces, List.map_cons, List.nodup_cons, hpaths]
  constructor
  · intro hmem
    obtain ⟨index, -, hindex⟩ := List.mem_map.mp hmem
    have hbracket : 91 ∈ memberPath pair.1.scalar index := bracket_mem_indexed _ _
    rw [hindex] at hbracket
    exact bracket_notMem_profilePath h hbracket
  · refine List.Nodup.map (fun left right heq => ?_) hindices
    exact (indexed_inj (bracket_notMem_members h) heq).2

/-- The paths of different profiles do not meet. -/
theorem path_ne_of_key_ne {left right : Node × Node} (hne : left.1.scalar ≠ right.1.scalar)
    (hleft : 91 ∉ left.1.scalar) (hright : 91 ∉ right.1.scalar) {place other : Place}
    (hplace : place ∈ profilePlaces left) (hother : other ∈ profilePlaces right) :
    place.path ≠ other.path := by
  intro hsame
  rcases path_of_mem_profilePlaces hplace with hpath | ⟨index, hpath⟩ <;>
    rcases path_of_mem_profilePlaces hother with hpath' | ⟨index', hpath'⟩ <;>
    rw [hpath, hpath'] at hsame
  · exact hne (profilePath_injective hsame)
  · apply bracket_notMem_profilePath hleft
    rw [hsame]
    exact bracket_mem_indexed _ _
  · apply bracket_notMem_profilePath hright
    rw [← hsame]
    exact bracket_mem_indexed _ _
  · obtain ⟨hmembers, -⟩ := indexed_inj (bracket_notMem_members hleft) hsame
    exact hne (profilePath_injective (List.append_cancel_right hmembers))

theorem nodup_allProfilePlaces {profiles : Node} (hadmitted : profiles.KeysAdmitted)
    (hbrackets : ∀ pair ∈ profiles.pairs, 91 ∉ pair.1.scalar) :
    ((profiles.pairs.flatMap profilePlaces).map Place.path).Nodup := by
  rw [List.map_flatMap, List.nodup_flatMap]
  refine ⟨fun pair hpair => nodup_profilePlaces (hbrackets pair hpair), ?_⟩
  have hdistinct : profiles.pairs.Pairwise fun left right => left.1.scalar ≠ right.1.scalar :=
    List.pairwise_map.mp hadmitted.distinct
  refine hdistinct.imp_of_mem fun {left right} hleft hright hne => ?_
  intro path hpath hpath'
  obtain ⟨place, hplace, rfl⟩ := List.mem_map.mp hpath
  obtain ⟨other, hother, hsame⟩ := List.mem_map.mp hpath'
  exact path_ne_of_key_ne hne (hbrackets left hleft) (hbrackets right hright) hplace hother
    hsame.symm

theorem declaresProfile {pair : Node × Node} {declaration : core.ProfileDeclaration}
    (h : IsProfile core context pair.1 pair.2 declaration) :
    DeclaresProfile core context.origin pair declaration := by
  obtain ⟨reference, site, members, hreference, hsite, hmembers, hdeclaration⟩ := h
  obtain ⟨list, hfield, -, hitems⟩ := hmembers.members
  refine ⟨reference, site, members, hreference, hsite, ?_, hdeclaration⟩
  rw [memberEntries, hfield]
  exact hitems

theorem locatedProfiles (hcore : RefusesBrackets core) {root : Node}
    {declarations : List core.ProfileDeclaration} (hvalid : root.Valid)
    (h : IsProfiles core context root declarations) :
    ∃ profiles, root.field? (ascii "profiles") = some profiles ∧
      LocatedProfiles core context.origin profiles declarations := by
  obtain ⟨profiles, hfield, hkind, hentries⟩ := h.profiles
  have hadmitted := (hvalid.field hfield).admitted hkind
  have hdeclares := hentries.imp fun pair declaration =>
    @declaresProfile core context pair declaration
  have hbrackets : ∀ pair ∈ profiles.pairs, 91 ∉ pair.1.scalar := by
    intro pair hpair hbracket
    obtain ⟨declaration, reference, _, _, hreference, -⟩ :=
      Entrywise.exists_forall₂_iff.mp ⟨declarations, hdeclares⟩ pair hpair
    exact hcore _ reference hreference (List.mem_append_right _ hbracket)
  refine ⟨profiles, hfield, hdeclares, nodup_allProfilePlaces hadmitted hbrackets, ?_⟩
  have hnames : profiles.pairs.map (fun pair => ascii "@" ++ pair.1.scalar) =
      (profiles.pairs.map (·.1.scalar)).map (ascii "@" ++ ·) := by
    rw [List.map_map]
    rfl
  rw [hnames]
  exact List.Nodup.map (fun _ _ heq => List.append_cancel_left heq) hadmitted.distinct

/-! ### Marks -/

theorem one_le_oneBasedPosition (value : Nat) : 1 ≤ (oneBasedPosition value).toNat := by
  have hsize : UInt32.size = 4294967296 := rfl
  unfold oneBasedPosition
  by_cases hlarge : UInt32.size - 1 ≤ value
  · rw [if_pos hlarge]
    decide
  · rw [if_neg hlarge, UInt32.toNat_ofNat', Nat.mod_eq_of_lt (by omega)]
    omega

theorem inRange_oneBased (mark : NativeMark) : mark.oneBased.InRange := by
  have hbound : ∀ position : UInt32, position.toNat ≤ UInt32.size - 1 := fun position =>
    Nat.le_sub_one_of_lt position.toNat_lt
  exact ⟨⟨one_le_oneBasedPosition mark.line, hbound _⟩, one_le_oneBasedPosition mark.column,
    hbound _⟩

theorem inRange_of_normalize {document : Bytes} {native : NativeResult} {event : YamlEvent}
    (h : normalize document native = .ok event) : event.mark.InRange := by
  cases native with
  | failed error problemMark problem => cases h
  | event found =>
      obtain ⟨kind, -, hevent⟩ := bind_eq_ok.mp h
      obtain rfl := pure_eq_ok.mp hevent
      have hmark : ∀ result data, (copyMembers result data).mark = result.mark := by
        intro result data
        cases data <;> rfl
      rw [hmark]
      exact inRange_oneBased found.startMark

theorem inRange_of_documentOutcome {byteLength : Nat} {native : Nat → NativeResult}
    {origin : SourceOrigin} {limits : ParseLimits} {root node : Node}
    (hroot : documentOutcome (libyamlInput origin byteLength native) origin limits = .ok root)
    (hnode : node ∈ root.nodes) : node.mark.InRange := by
  obtain ⟨call, event, hcall, hmark⟩ := mark_of_documentOutcome hroot hnode
  exact hmark ▸ inRange_of_normalize hcall

section

variable {root requirements profiles : Node} {place : Place}

/-- The entries of a `requirements` mapping are nodes of the tree it stands in. -/
theorem node_mem_requirementEntries {entry : RequirementEntry}
    (hrequirements : requirements ∈ root.nodes) (h : entry ∈ requirements.requirementEntries) :
    entry.node ∈ root.nodes := by
  have hoptional : ∀ name key, entry ∈ optionalEntries name (requirements.field? key) →
      entry.node ∈ root.nodes := by
    intro name key hentry
    cases hfield : requirements.field? key with
    | none =>
        rw [hfield] at hentry
        exact absurd hentry List.not_mem_nil
    | some sequence =>
        rw [hfield] at hentry
        exact root.child_mem_nodes (field_mem_nodes hrequirements hfield)
          (node_mem_scopeEntries hentry)
  rw [requirementEntries_eq, List.mem_append, List.mem_append, List.mem_append] at h
  rcases h with hentry | hentry | hentry | hentry
  · exact hoptional _ _ hentry
  · exact hoptional _ _ hentry
  · exact hoptional _ _ hentry
  · cases hfield : requirements.field? (ascii "lifecycle") with
    | none =>
        rw [hfield] at hentry
        exact absurd hentry List.not_mem_nil
    | some lifecycle =>
        rw [hfield] at hentry
        obtain ⟨pair, hpair, hentry⟩ := List.mem_flatMap.mp hentry
        unfold actionEntries at hentry
        cases haction : LifecycleAction.named? pair.1.scalar with
        | none => simp [haction] at hentry
        | some action =>
            rw [haction] at hentry
            have hlifecycle := field_mem_nodes hrequirements hfield
            exact root.child_mem_nodes (root.pair_mem_nodes hlifecycle hpair).2
              (node_mem_scopeEntries hentry)

/-- The places of a recipe bear marks of its tree. -/
theorem mark_of_mem_recipePlaces (hfield : root.field? (ascii "requirements") = some requirements)
    (h : place ∈ recipePlaces root requirements) : ∃ node ∈ root.nodes, node.mark = place.mark := by
  rcases List.mem_cons.mp h with rfl | h
  · exact ⟨root, root.self_mem_nodes, rfl⟩
  · obtain ⟨entry, hentry, rfl⟩ := List.mem_map.mp h
    exact ⟨entry.node, node_mem_requirementEntries
      (field_mem_nodes root.self_mem_nodes hfield) hentry, rfl⟩

/-- The places of profiles and of their members bear marks of the tree. -/
theorem mark_of_mem_profilePlaces (hfield : root.field? (ascii "profiles") = some profiles)
    (h : place ∈ profiles.pairs.flatMap profilePlaces) :
    ∃ node ∈ root.nodes, node.mark = place.mark := by
  obtain ⟨pair, hpair, h⟩ := List.mem_flatMap.mp h
  obtain ⟨hkey, hdefinition⟩ :=
    root.pair_mem_nodes (field_mem_nodes root.self_mem_nodes hfield) hpair
  rcases List.mem_cons.mp h with rfl | h
  · exact ⟨pair.1, hkey, rfl⟩
  obtain ⟨entry, hentry, rfl⟩ := List.mem_map.mp h
  unfold memberEntries at hentry
  cases hmembers : pair.2.field? (ascii "members") with
  | none =>
      rw [hmembers] at hentry
      exact absurd hentry List.not_mem_nil
  | some list =>
      rw [hmembers] at hentry
      have hitem : entry.1 ∈ list.children := by
        rw [← List.zipIdx_map_fst 0 list.children]
        exact List.mem_map_of_mem hentry
      exact ⟨entry.1, root.child_mem_nodes (field_mem_nodes hdefinition hmembers) hitem, rfl⟩

end

/-- **Exact locations.** Where `libpkgsource` refuses profile names with an opening bracket: the
requirements of an accepted recipe stand at the positions of their entries in their own scopes and
the recipe at the root, no two at one path and no two lifecycle programs under one action; accepted
profiles stand at their keys and their members at their own nodes, no two at one path and no two
under one name. Over libyaml every line and column of such a place is in range, however large the
provider's positions are. -/
theorem declarations_located (core : Core) (context : Context) (order : EvaluationOrder)
    (input : Input) (limits : ParseLimits) (hcore : RefusesBrackets core) :
    (∀ declaration, parseRecipeYaml core context order input limits = .ok declaration →
      ∃ root requirements fields, documentOutcome input context.origin limits = .ok root ∧
        root.field? (ascii "requirements") = some requirements ∧
        fields.declare core = .ok declaration ∧
        LocatedRecipe core context.origin root requirements fields) ∧
    (∀ declarations, parseProfilesYaml core context input limits = .ok declarations →
      ∃ root profiles, documentOutcome input context.origin limits = .ok root ∧
        root.field? (ascii "profiles") = some profiles ∧
        LocatedProfiles core context.origin profiles declarations) ∧
    ∀ byteLength native root,
      documentOutcome (libyamlInput context.origin byteLength native) context.origin limits =
        .ok root →
      (∀ requirements, root.field? (ascii "requirements") = some requirements →
        ∀ place ∈ recipePlaces root requirements, place.mark.InRange) ∧
      ∀ profiles, root.field? (ascii "profiles") = some profiles →
        ∀ place ∈ profiles.pairs.flatMap profilePlaces, place.mark.InRange := by
  refine ⟨fun declaration h => ?_, fun declarations h => ?_, ?_⟩
  · obtain ⟨root, hroot, hvalue⟩ := bind_eq_ok.mp h
    have hvalid := valid_of_documentOutcome hroot
    obtain ⟨fields, hfields, hdeclaration⟩ := (recipeValue_eq_ok_iff hvalid).mp hvalue
    obtain ⟨requirements, hfield, hlocated⟩ := locatedRecipe hvalid hfields
    exact ⟨root, requirements, fields, hroot, hfield, hdeclaration, hlocated⟩
  · obtain ⟨root, hroot, hvalue⟩ := bind_eq_ok.mp h
    have hvalid := valid_of_documentOutcome hroot
    have hprofiles := (profilesValue_eq_ok_iff hvalid).mp hvalue
    obtain ⟨profiles, hfield, hlocated⟩ := locatedProfiles hcore hvalid hprofiles
    exact ⟨root, profiles, hroot, hfield, hlocated⟩
  · intro byteLength native root hroot
    constructor
    · intro requirements hfield place hplace
      obtain ⟨node, hnode, hmark⟩ := mark_of_mem_recipePlaces hfield hplace
      exact hmark ▸ inRange_of_documentOutcome hroot hnode
    · intro profiles hfield place hplace
      obtain ⟨node, hnode, hmark⟩ := mark_of_mem_profilePlaces hfield hplace
      exact hmark ▸ inRange_of_documentOutcome hroot hnode

/-- A `libpkgsource` that refuses only profile names with an opening bracket. -/
def Core.bracketless : Core :=
  { Core.permissive with
    profileReference := fun name =>
      if 91 ∈ name then .error ⟨ascii "invalid profile name"⟩ else .ok () }

theorem refusesBrackets_bracketless : RefusesBrackets Core.bracketless := by
  intro name reference h hbracket
  have herror := (if_pos hbracket).symm.trans h
  cases herror

theorem declarations_located_small : ∃ root profiles,
    documentOutcome (.spelling 120 smallProfiles) ⟨ascii "profiles.yaml"⟩ {} = .ok root ∧
      root.field? (ascii "profiles") = some profiles ∧
      LocatedProfiles Core.bracketless ⟨ascii "profiles.yaml"⟩ profiles [()] :=
  (declarations_located Core.bracketless ⟨⟨ascii "profiles.yaml"⟩, false⟩ .textual
    (.spelling 120 smallProfiles) {} refusesBrackets_bracketless).2.1 [()] rfl

end PkgsourceYaml
