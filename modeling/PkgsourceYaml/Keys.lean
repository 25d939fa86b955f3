import PkgsourceYaml.Document

/-!
# Key occurrences

The keys of every mapping that sequence items and mapping values lead to, in document order, and
what is wrong with a key. Nothing here stops at the first fault.
-/

namespace PkgsourceYaml

/-- One key of one mapping: the path of the mapping, the keys before it there, and the key. -/
structure KeyOccurrence where
  path : Bytes
  earlier : List Node
  key : Node

namespace KeyOccurrence

variable (occurrence : KeyOccurrence)

def Complex : Prop := occurrence.key.kind ≠ .scalar

def Merges : Prop := occurrence.key.scalar = ascii "<<"

def Repeats : Prop :=
  ∃ earlier ∈ occurrence.earlier, earlier.scalar = occurrence.key.scalar

def IsViolation : Prop := occurrence.Complex ∨ occurrence.Merges ∨ occurrence.Repeats

instance : Decidable occurrence.Complex := inferInstanceAs (Decidable (_ ≠ _))

instance : Decidable occurrence.Merges := inferInstanceAs (Decidable (_ = _))

instance : Decidable occurrence.Repeats := inferInstanceAs (Decidable (∃ earlier ∈ _, _))

instance : Decidable occurrence.IsViolation := inferInstanceAs (Decidable (_ ∨ _ ∨ _))

/-- What is reported of a violation, a complex key before a merge key before a repeated key. -/
def report (origin : SourceOrigin) : Exception :=
  if occurrence.Complex then
    failure .invalidType origin occurrence.path occurrence.key.mark
      (ascii "mapping keys must be scalars")
  else if occurrence.Merges then
    failure .unsupportedFeature origin occurrence.path occurrence.key.mark
      (ascii "YAML merge keys are not supported")
  else
    failure .duplicateKey origin (childPath occurrence.path occurrence.key.scalar)
      occurrence.key.mark (ascii "duplicate mapping key: " ++ occurrence.key.scalar)

end KeyOccurrence

mutual

/-- The key occurrences of a tree whose root is at `path`, in document order. -/
def Node.keyOccurrences : Node → Bytes → List KeyOccurrence
  | ⟨.scalar, _, _, _⟩, _ => []
  | ⟨.sequence, _, _, children⟩, path => itemOccurrences children path 0
  | ⟨.mapping, _, _, children⟩, path => pairOccurrences children path []

def itemOccurrences : List Node → Bytes → Nat → List KeyOccurrence
  | [], _, _ => []
  | item :: rest, path, index =>
      item.keyOccurrences (indexed path index) ++ itemOccurrences rest path (index + 1)

/-- A key comes before the keys below its value, and these before the next key. -/
def pairOccurrences : List Node → Bytes → List Node → List KeyOccurrence
  | [], _, _ => []
  | [key], path, earlier => [⟨path, earlier, key⟩]
  | key :: value :: rest, path, earlier =>
      ⟨path, earlier, key⟩ :: (value.keyOccurrences (childPath path key.scalar) ++
        pairOccurrences rest path (earlier ++ [key]))

end

end PkgsourceYaml
