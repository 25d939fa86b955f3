import PkgsourceYaml.Grammar

/-!
# Positions, schemas and faults

The grammars once more, this time as trees that say what is demanded at each position of a document:
a kind, the keys a mapping may or must have, and when a value there is no good. A fault is a place
where a document and a schema disagree, and is what a diagnostic is meant to report.
-/

namespace PkgsourceYaml

/-! ### Positions -/

inductive Segment where
  | key (key : Bytes)
  | index (index : Nat)
  deriving DecidableEq, Repr

def Segment.extend (path : Bytes) : Segment → Bytes
  | .key name => childPath path name
  | .index offset => indexed path offset

/-- The path of a position below a node that has a path itself. -/
def renderFrom (path : Bytes) (position : List Segment) : Bytes :=
  position.foldl Segment.extend path

def render (position : List Segment) : Bytes := renderFrom (ascii "$") position

def Node.step? (node : Node) : Segment → Option Node
  | .key key => if node.kind = .mapping then node.field? key else none
  | .index index => if node.kind = .sequence then node.children[index]? else none

def Node.at? (node : Node) : List Segment → Option Node
  | [] => some node
  | segment :: rest => (node.step? segment).bind (·.at? rest)

/-! ### Schemas -/

inductive Presence where
  | required
  | optional
  deriving DecidableEq, Repr

/-- What a grammar demands of a node. A record has fixed keys, a table any; `violated` says when a
scalar, a record as a whole, or a key of a table with its value is no good. -/
inductive Schema where
  | scalar (violated : Node → Prop)
  | sequence (item : Schema)
  | record (fields : List (Bytes × Presence × Schema)) (violated : Node → Prop)
  | table (violated : Node → Node → Prop) (value : Schema)

def Schema.kind : Schema → NodeKind
  | .scalar _ => .scalar
  | .sequence _ => .sequence
  | .record _ _ => .mapping
  | .table _ _ => .mapping

def Schema.Violated : Schema → Node → Prop
  | .scalar violated, node => violated node
  | .record _ violated, node => violated node
  | _, _ => False

def Schema.step? : Schema → Segment → Option Schema
  | .sequence item, .index _ => some item
  | .record fields _, .key key => (fields.find? (·.1 = key)).map (·.2.2)
  | .table _ value, .key _ => some value
  | _, _ => none

/-- What the grammar demands at a position. -/
def Schema.at? (schema : Schema) : List Segment → Option Schema
  | [] => some schema
  | segment :: rest => (schema.step? segment).bind (·.at? rest)

/-! ### Faults -/

/-- A disagreement between a node and its schema: where it is reported, relative to the node, with
which category and at which mark. -/
inductive Fault : Schema → Node → List Segment → YamlErrorCode → SourceMark → Prop where
  | wrongKind {schema : Schema} {node : Node} (h : node.kind ≠ schema.kind) :
      Fault schema node [] .invalidType node.mark
  | unknownKey {fields : List (Bytes × Presence × Schema)} {violated : Node → Prop} {node : Node}
      {pair : Node × Node} (hkind : node.kind = .mapping) (hpair : pair ∈ node.pairs)
      (h : pair.1.scalar ∉ fields.map Prod.fst) :
      Fault (.record fields violated) node [.key pair.1.scalar] .unknownKey pair.1.mark
  | missingKey {fields : List (Bytes × Presence × Schema)} {violated : Node → Prop} {node : Node}
      {key : Bytes} {value : Schema} (hkind : node.kind = .mapping)
      (hrequired : (key, .required, value) ∈ fields) (h : node.field? key = none) :
      Fault (.record fields violated) node [.key key] .missingKey node.mark
  | violated {schema : Schema} {node : Node} (hkind : node.kind = schema.kind)
      (h : schema.Violated node) : Fault schema node [] .invalidValue node.mark
  | badKey {violated : Node → Node → Prop} {value : Schema} {node : Node} {pair : Node × Node}
      (hkind : node.kind = .mapping) (hpair : pair ∈ node.pairs) (h : violated pair.1 pair.2) :
      Fault (.table violated value) node [.key pair.1.scalar] .invalidValue pair.1.mark

/-- The document really has this fault at this position: the parent it is found in exists, and the
fault is between that parent and what the grammar demands there. -/
def FaultAt (schema : Schema) (root : Node) (position : List Segment) (code : YamlErrorCode)
    (mark : SourceMark) : Prop :=
  ∃ parent suffix node inner, position = parent ++ suffix ∧ root.at? parent = some node ∧
    schema.at? parent = some inner ∧ Fault inner node suffix code mark

/-! ### The schemas of the two grammars -/

def Rejected {α : Type} (call : Except CoreError α) : Prop := ∃ failed, call = .error failed

/-- A scalar that only its kind can make wrong. -/
def anyText : Schema := .scalar fun _ => False

def NoAction (key : Node) : Prop := ∀ action : LifecycleAction, key.scalar ≠ action.name

variable (core : Core) (context : Context)

def formatSchema (expected : Bytes) : Schema := .scalar fun node => node.scalar ≠ expected

def subjectSchema : Schema :=
  .record
    [(ascii "package", .optional, .scalar fun node => Rejected (core.packageSubjectOf node.scalar)),
      (ascii "profile", .optional,
        .scalar fun node => Rejected (core.profileSubjectOf node.scalar))]
    fun node =>
      (node.field? (ascii "package")).isSome = (node.field? (ascii "profile")).isSome

def programSchema : Schema :=
  .record
    [(ascii "language", .required, .scalar fun node => node.scalar ≠ posixShellLanguage),
      (ascii "script", .required,
        .scalar fun node => Rejected (core.program .posixShell node.scalar))]
    fun _ => False

def requirementsSchema : Schema :=
  .record
    [(ascii "build", .optional, .sequence (subjectSchema core)),
      (ascii "run", .optional, .sequence (subjectSchema core)),
      (ascii "check", .optional, .sequence (subjectSchema core)),
      (ascii "lifecycle", .optional,
        .table (fun key _ => NoAction key) (.sequence (subjectSchema core)))]
    fun _ => False

def lifecycleSchema : Schema := .table (fun key _ => NoAction key) (programSchema core)

def architectureListSchema : Schema :=
  .sequence (.scalar fun node => Rejected (core.architectureReference node.scalar))

def architecturesSchema : Schema :=
  .record
    [(ascii "build", .optional, architectureListSchema core),
      (ascii "target", .optional, architectureListSchema core)]
    fun node => ∃ failed, ArchitecturesOutcome core node (.error failed)

def sourceSchema : Schema :=
  .record
    [(ascii "url", .optional, anyText), (ascii "path", .optional, anyText),
      (ascii "name", .required, anyText),
      (ascii "unpack", .optional, .scalar fun node => node.scalar ≠ ascii "archive"),
      (ascii "sha256", .required,
        .scalar fun node => Rejected (core.digest .sha256 node.scalar))]
    fun node =>
      (node.field? (ascii "url")).isSome = (node.field? (ascii "path")).isSome ∨
        ∃ failed, SourceOutcome core node (.error failed)

def packageSchema : Schema :=
  .record
    [(ascii "name", .required, anyText), (ascii "version", .required, anyText),
      (ascii "release", .required,
        .scalar fun node => ∀ number, ¬CanonicalRelease node.scalar number),
      (ascii "summary", .required, anyText), (ascii "description", .optional, anyText),
      (ascii "homepage", .optional, anyText), (ascii "licenses", .required, .sequence anyText)]
    fun node => (∃ failed, ReleaseOutcome core node (.error failed)) ∨
      ∃ failed, MetadataOutcome core node (.error failed)

def recipeSchema : Schema :=
  .record
    [(ascii "format", .required, formatSchema (ascii "zeppe-lin.recipe/1")),
      (ascii "package", .required, packageSchema core),
      (ascii "requirements", .required, requirementsSchema core),
      (ascii "sources", .required, .sequence (sourceSchema core)),
      (ascii "build", .required, programSchema core),
      (ascii "check", .optional, programSchema core),
      (ascii "lifecycle", .optional, lifecycleSchema core),
      (ascii "architectures", .optional, architecturesSchema core)]
    fun _ => False

/-- `libpkgsource` rejects the name of a profile, its location, or the profile. -/
def ProfileRejected (key definition : Node) : Prop :=
  Rejected (core.profileReference (ascii "@" ++ key.scalar)) ∨
    Rejected (provenance core context (profilePath key.scalar) key) ∨
    ∃ failed, ProfileOutcome core context key definition (.error failed)

def profileSchema : Schema :=
  .record [(ascii "members", .required, .sequence (subjectSchema core))] fun _ => False

def profilesSchema : Schema :=
  .record
    [(ascii "format", .required, formatSchema (ascii "zeppe-lin.profiles/1")),
      (ascii "profiles", .required, .table (ProfileRejected core context) (profileSchema core))]
    fun _ => False

end PkgsourceYaml
