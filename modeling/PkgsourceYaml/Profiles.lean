import PkgsourceYaml.Fields

/-!
# The profiles entry point

`parse_profiles_yaml`: one declaration for each key under `profiles`, in document order.
-/

namespace PkgsourceYaml

variable (core : Core) (context : Context)

def memberValue (path : Bytes) (entry : Node) :
    Except Exception core.ProfileMemberDeclaration := do
  let subject ← subjectValue core context entry path
  let site ← propagate (provenance core context path entry)
  propagate (core.profileMemberDeclaration subject site)

/-- Decode one profile. The dynamic key is admitted before descendant provenance paths reuse it. -/
def profileValue (nameNode definition : Node) : Except Exception core.ProfileDeclaration := do
  let definitionPath := ascii "profiles." ++ nameNode.scalar
  let reference ←
    semanticValue context definitionPath nameNode
      (core.profileReference (ascii "@" ++ nameNode.scalar))
  let declarationSite ←
    semanticValue context definitionPath nameNode (provenance core context definitionPath nameNode)
  allowKeys context definition definitionPath [ascii "members"]
  let membersNode ← requiredKey context definition (ascii "members") definitionPath
  let memberNodes ← sequenceValue context membersNode (definitionPath ++ ascii ".members")
  let members ←
    eachItem (definitionPath ++ ascii ".members") (memberValue core context) memberNodes 0
  semanticValue context definitionPath nameNode
    (core.profileDeclaration reference declarationSite members)

/-- The profiles grammar: `parse_profiles_yaml` on the tree `parse_document` returned. -/
def profilesValue (root : Node) : Except Exception (List core.ProfileDeclaration) := do
  allowKeys context root (ascii "$") [ascii "format", ascii "profiles"]
  requireFormat context root (ascii "zeppe-lin.profiles/1")
  let profiles ← requiredKey context root (ascii "profiles") (ascii "$")
  let profiles ← requireKind context profiles .mapping (ascii "profiles") (ascii "profiles")
  eachPair context profiles (profileValue core context)

def parseProfilesYaml (input : Input) (limits : ParseLimits) :
    Except Exception (List core.ProfileDeclaration) := do
  let root ← documentOutcome input context.origin limits
  profilesValue core context root

end PkgsourceYaml
