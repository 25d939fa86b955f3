import Mathlib.Data.List.Basic

/-!
# Byte strings

A `std::string` of the source is a sequence of bytes with no encoding attached, so document text,
diagnostic paths and messages are lists of bytes here. Literals are ASCII.
-/

namespace PkgsourceYaml

abbrev Bytes := List UInt8

instance : LawfulBEq Bytes := inferInstanceAs (LawfulBEq (List UInt8))

def asciiByte (c : Char) : UInt8 := UInt8.ofNat c.toNat

/-- The bytes of an ASCII literal of the source. -/
def ascii (text : String) : Bytes := text.toList.map asciiByte

/-- `std::to_string` of an unsigned integer. -/
def decimal (n : Nat) : Bytes := (Nat.toDigits 10 n).map asciiByte

/-- `path + "[" + std::to_string(index) + "]"`, as the source extends a path by a sequence index. -/
def indexed (path : Bytes) (index : Nat) : Bytes :=
  path ++ ascii "[" ++ decimal index ++ ascii "]"

def childPath (path key : Bytes) : Bytes :=
  if path = ascii "$" then key else path ++ ascii "." ++ key

example : childPath (childPath (ascii "$") (ascii "package")) (ascii "name") =
    ascii "package.name" := by decide

end PkgsourceYaml
