import PkgsourceYaml.Profiles
import PkgsourceYaml.Proof.RecipeGrammar

/-!
# The profiles decoder reads the profiles grammar
-/

namespace PkgsourceYaml

open Throwing

variable {core : Core} {context : Context}

theorem memberValue_eq_ok_iff {path : Bytes} {entry : Node}
    {member : core.ProfileMemberDeclaration} (hvalid : entry.Valid) :
    memberValue core context path entry = .ok member ↔ IsMember core context path entry member := by
  simp only [memberValue, bind_eq_ok, propagate_eq_ok_iff, subjectValue_eq_ok_iff hvalid, IsMember]
  constructor
  · rintro ⟨subject, hsubject, site, hsite, h⟩
    exact ⟨subject, site, hsubject, hsite, h⟩
  · rintro ⟨subject, site, hsubject, hsite, h⟩
    exact ⟨subject, hsubject, site, hsite, h⟩

theorem profileValue_eq_ok_iff {key definition : Node} {declaration : core.ProfileDeclaration}
    (hvalid : definition.Valid) :
    profileValue core context key definition = .ok declaration ↔
      IsProfile core context key definition declaration := by
  have hmembers : ∀ {list : Node} {members : List core.ProfileMemberDeclaration}, list.Valid →
      ((∃ entries, sequenceValue context list (profilePath key.scalar ++ ascii ".members") =
          .ok entries ∧
        eachItem (profilePath key.scalar ++ ascii ".members") (memberValue core context) entries 0 =
          .ok members) ↔
        IsItems (fun index => IsMember core context
          (indexed (profilePath key.scalar ++ ascii ".members") index)) list members) :=
    fun hlist => isItems_iff hlist fun _ _ _ hentry => memberValue_eq_ok_iff hentry
  simp only [profileValue, bind_eq_ok, semanticValue_eq_ok_iff]
  constructor
  · rintro ⟨reference, hreference, site, hsite, _, hkeys, list, hlist, entries, hentries, members,
      hvalues, haccepted⟩
    rw [allowKeys_eq_ok_iff hvalid] at hkeys
    rw [requiredKey_eq_ok_iff hvalid hkeys.1] at hlist
    exact ⟨reference, site, members, hreference, hsite,
      ⟨hkeys, list, hlist, (hmembers (hvalid.field hlist)).mp ⟨entries, hentries, hvalues⟩⟩,
      haccepted⟩
  · rintro ⟨reference, site, members, hreference, hsite, ⟨hkeys, list, hlist, hitems⟩, haccepted⟩
    obtain ⟨entries, hentries, hvalues⟩ := (hmembers (hvalid.field hlist)).mpr hitems
    exact ⟨reference, hreference, site, hsite, (), (allowKeys_eq_ok_iff hvalid).mpr hkeys, list,
      (requiredKey_eq_ok_iff hvalid hkeys.1).mpr hlist, entries, hentries, members, hvalues,
      haccepted⟩

/-- The profiles grammar decides what `parse_profiles_yaml` makes of a tree. -/
theorem profilesValue_eq_ok_iff {root : Node} {declarations : List core.ProfileDeclaration}
    (hvalid : root.Valid) :
    profilesValue core context root = .ok declarations ↔
      IsProfiles core context root declarations := by
  have hentries : ∀ {node : Node}, node.Valid →
      ((node.kind = .mapping ∧
        eachPair context node (profileValue core context) = .ok declarations) ↔
        IsEntries (IsProfile core context) node declarations) :=
    fun hnode => isEntries_iff hnode fun _ _ _ hdefinition => profileValue_eq_ok_iff hdefinition
  simp only [profilesValue, bind_eq_ok, requireKind_eq_ok_iff]
  constructor
  · rintro ⟨_, hkeys, _, hformat, profiles, hprofiles, _, ⟨hkind, rfl⟩, h⟩
    rw [allowKeys_eq_ok_iff hvalid] at hkeys
    rw [requiredKey_eq_ok_iff hvalid hkeys.1] at hprofiles
    exact ⟨hkeys, (requireFormat_eq_ok_iff hvalid hkeys.1).mp hformat, profiles, hprofiles,
      (hentries (hvalid.field hprofiles)).mp ⟨hkind, h⟩⟩
  · rintro ⟨hkeys, hformat, profiles, hprofiles, h⟩
    obtain ⟨hkind, hvalues⟩ := (hentries (hvalid.field hprofiles)).mpr h
    exact ⟨(), (allowKeys_eq_ok_iff hvalid).mpr hkeys,
      (), (requireFormat_eq_ok_iff hvalid hkeys.1).mpr hformat, profiles,
      (requiredKey_eq_ok_iff hvalid hkeys.1).mpr hprofiles, profiles, ⟨hkind, rfl⟩, hvalues⟩

end PkgsourceYaml
