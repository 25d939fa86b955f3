import PkgsourceYaml.Grammar
import PkgsourceYaml.Proof.Fields
import Mathlib.Data.List.Induction
import Mathlib.Data.List.TakeWhile
import Mathlib.Algebra.Group.Nat.Defs

/-!
# Canonical decimals

`release_value` accepts exactly the canonical decimals of positive 32-bit numbers.
-/

namespace PkgsourceYaml

open Throwing

theorem isDigit_iff {byte : UInt8} : isDigit byte = true ↔ 48 ≤ byte.toNat ∧ byte.toNat ≤ 57 := by
  rw [isDigit, Bool.and_eq_true, decide_eq_true_iff, decide_eq_true_iff, UInt8.le_iff_toNat_le,
    UInt8.le_iff_toNat_le]
  rfl

theorem asciiByte_digitChar {n : Nat} (h : n < 10) :
    asciiByte n.digitChar = UInt8.ofNat (48 + n) := by
  have hall : ∀ n < 10, asciiByte (Nat.digitChar n) = UInt8.ofNat (48 + n) := by decide
  exact hall n h

theorem toNat_asciiByte_digitChar {n : Nat} (h : n < 10) :
    (asciiByte n.digitChar).toNat = 48 + n := by
  have hall : ∀ n < 10, (asciiByte (Nat.digitChar n)).toNat = 48 + n := by decide
  exact hall n h

theorem decimal_of_lt_ten {n : Nat} (h : n < 10) : decimal n = [asciiByte n.digitChar] := by
  rw [decimal, Nat.toDigits_of_lt_base h, List.map_singleton]

theorem decimal_append {n digit : Nat} (hn : 0 < n) (hdigit : digit < 10) :
    decimal (10 * n + digit) = decimal n ++ [asciiByte digit.digitChar] := by
  rw [decimal, ← Nat.toDigits_append_toDigits (by decide) hn hdigit, List.map_append]
  rw [Nat.toDigits_of_lt_base hdigit, List.map_singleton]
  rfl

theorem digitsValue_append (text : Bytes) (digit : UInt8) :
    digitsValue (text ++ [digit]) = 10 * digitsValue text + (digit.toNat - 48) := by
  rw [digitsValue, List.foldl_append]
  rfl

theorem decimal_induction {motive : Nat → Prop} (single : ∀ n < 10, motive n)
    (append : ∀ n digit, 0 < n → digit < 10 → motive n → motive (10 * n + digit)) (n : Nat) :
    motive n := by
  induction n using Nat.strongRecOn with
  | ind n ih =>
      by_cases hsmall : n < 10
      · exact single n hsmall
      · have hsplit : n = 10 * (n / 10) + n % 10 := by omega
        rw [hsplit]
        exact append (n / 10) (n % 10) (by omega) (by omega) (ih (n / 10) (by omega))

theorem digitsValue_decimal (n : Nat) : digitsValue (decimal n) = n := by
  induction n using decimal_induction with
  | single n h =>
      rw [decimal_of_lt_ten h, digitsValue, List.foldl_cons, List.foldl_nil,
        toNat_asciiByte_digitChar h]
      omega
  | append n digit hn hdigit ih =>
      rw [decimal_append hn hdigit, digitsValue_append, ih, toNat_asciiByte_digitChar hdigit]
      omega

theorem isDigit_of_mem_decimal {n : Nat} {byte : UInt8} (h : byte ∈ decimal n) :
    isDigit byte = true := by
  induction n using decimal_induction with
  | single n hn =>
      rw [decimal_of_lt_ten hn, List.mem_singleton] at h
      rw [h, isDigit_iff, toNat_asciiByte_digitChar hn]
      omega
  | append n digit hn hdigit ih =>
      rw [decimal_append hn hdigit, List.mem_append, List.mem_singleton] at h
      rcases h with h | rfl
      · exact ih h
      · rw [isDigit_iff, toNat_asciiByte_digitChar hdigit]
        omega

theorem decimal_ne_nil (n : Nat) : decimal n ≠ [] := by
  induction n using decimal_induction with
  | single n h => simp [decimal_of_lt_ten h]
  | append n digit hn hdigit ih => simp [decimal_append hn hdigit]

theorem head_decimal_ne_zero {n : Nat} (hn : 0 < n) : (decimal n).head? ≠ some 48 := by
  induction n using decimal_induction with
  | single n h =>
      rw [decimal_of_lt_ten h, List.head?_cons]
      intro hzero
      have hnat := congrArg UInt8.toNat (Option.some.inj hzero)
      rw [toNat_asciiByte_digitChar h] at hnat
      change 48 + n = 48 at hnat
      omega
  | append n digit hpositive hdigit ih =>
      rw [decimal_append hpositive hdigit, List.head?_append_of_ne_nil _ (decimal_ne_nil n)]
      exact ih hpositive

/-- The digits of a text without leading zero are the decimal of their value. -/
theorem decimal_digitsValue {text : Bytes} (hne : text ≠ [])
    (hdigits : ∀ byte ∈ text, isDigit byte = true)
    (hleading : text.length = 1 ∨ text.head? ≠ some 48) : decimal (digitsValue text) = text := by
  induction text using List.reverseRecOn with
  | nil => exact absurd rfl hne
  | append_singleton init last ih =>
      have hlast := isDigit_iff.mp (hdigits last (by simp))
      have hsmall : last.toNat - 48 < 10 := by omega
      have hbyte : asciiByte (last.toNat - 48).digitChar = last := by
        rw [asciiByte_digitChar hsmall, show 48 + (last.toNat - 48) = last.toNat by omega,
          UInt8.ofNat_toNat]
      by_cases hinit : init = []
      · subst hinit
        have hvalue : digitsValue [last] = last.toNat - 48 := by
          simp [digitsValue]
        rw [List.nil_append, hvalue, decimal_of_lt_ten hsmall, hbyte]
      · have hhead : init.head? ≠ some 48 := by
          rcases hleading with hlength | hhead
          · rw [List.length_append, List.length_singleton] at hlength
            exact absurd (List.eq_nil_of_length_eq_zero (by omega)) hinit
          · rwa [List.head?_append_of_ne_nil _ hinit] at hhead
        have hprefix := ih hinit (fun byte h => hdigits byte (by simp [h])) (Or.inr hhead)
        have hpositive : 0 < digitsValue init := by
          refine Nat.pos_of_ne_zero fun hzero => hhead ?_
          rw [← hprefix, hzero]
          rfl
        rw [digitsValue_append, decimal_append hpositive hsmall, hprefix, hbyte]

theorem takeWhile_eq_self {text : Bytes} (h : ∀ byte ∈ text, isDigit byte = true) :
    text.takeWhile isDigit = text ∧ text.dropWhile isDigit = [] :=
  ⟨List.takeWhile_eq_self_iff.mpr h, List.dropWhile_eq_nil_iff.mpr h⟩

/-- `from_chars` consumes the whole text without an error exactly when it is a string of digits
whose value fits. -/
theorem fromChars_complete_iff {text : Bytes} {value : Nat} :
    ((fromChars text).error = false ∧ (fromChars text).rest = [] ∧ (fromChars text).value = value) ↔
      text ≠ [] ∧ (∀ byte ∈ text, isDigit byte = true) ∧ digitsValue text = value ∧
        value < UInt64.size := by
  constructor
  · rintro ⟨herror, hrest, hvalue⟩
    by_cases hnone : text.takeWhile isDigit = []
    · simp [fromChars, hnone] at herror
    by_cases hlarge : UInt64.size ≤ digitsValue (text.takeWhile isDigit)
    · simp [fromChars, hnone, hlarge] at herror
    simp only [fromChars, if_neg hnone, if_neg hlarge] at hrest hvalue
    have hdigits := List.dropWhile_eq_nil_iff.mp hrest
    rw [(takeWhile_eq_self hdigits).1] at hnone hlarge hvalue
    exact ⟨hnone, hdigits, hvalue, by omega⟩
  · rintro ⟨hne, hdigits, rfl, hfits⟩
    obtain ⟨htake, hdrop⟩ := takeWhile_eq_self hdigits
    have hsmall : ¬UInt64.size ≤ digitsValue text := by omega
    simp [fromChars, htake, hdrop, hne, hsmall]

/-- `release_value` reads exactly the canonical decimals of positive 32-bit numbers. -/
theorem releaseValue_eq_ok_iff {context : Context} {node : Node} {path : Bytes} {release : UInt32} :
    releaseValue context node path = .ok release ↔
      ∃ text, node.IsText text ∧ CanonicalRelease text release := by
  rw [releaseValue, bind_eq_ok]
  refine exists_congr fun text => and_congr scalarValue_eq_ok_iff ?_
  simp only [Context.fail, ite_throw_eq_ok, pure_eq_ok, not_or, not_and]
  constructor
  · rintro ⟨⟨hne, hleading⟩, ⟨herror, hrest, hzero, hbound⟩, rfl⟩
    obtain ⟨-, hdigits, hvalue, -⟩ := fromChars_complete_iff.mp
      ⟨by simpa using herror, not_not.mp hrest, rfl⟩
    have hlength : text.length = 1 ∨ text.head? ≠ some 48 := by
      by_cases hlong : 1 < text.length
      · exact Or.inr (hleading hlong)
      · have hpositive := List.length_pos_iff.mpr hne
        exact Or.inl (by omega)
    have htoNat : (UInt32.ofNat (fromChars text).value).toNat = (fromChars text).value := by
      rw [UInt32.toNat_ofNat', Nat.mod_eq_of_lt]
      have hsize : UInt32.size = 4294967296 := rfl
      omega
    refine ⟨fun hz => hzero ?_, ?_⟩
    · rw [← htoNat, hz]
      rfl
    · rw [htoNat, ← hvalue, decimal_digitsValue hne hdigits hlength]
  · rintro ⟨hne, rfl⟩
    have hpositive : 0 < release.toNat :=
      Nat.pos_of_ne_zero fun h => hne (UInt32.toNat_inj.mp h)
    have hlt := release.toNat_lt
    obtain ⟨herror, hrest, hvalue⟩ := fromChars_complete_iff.mpr
      ⟨decimal_ne_nil release.toNat, fun byte => isDigit_of_mem_decimal,
        digitsValue_decimal release.toNat, Nat.lt_of_lt_of_le hlt (by decide)⟩
    refine ⟨⟨decimal_ne_nil _, fun _ => head_decimal_ne_zero hpositive⟩,
      ⟨by simp [herror], not_not.mpr hrest, by omega, ?_⟩, ?_⟩
    · have hsize : UInt32.size = 4294967296 := rfl
      omega
    · rw [hvalue, UInt32.ofNat_toNat]

/-! ### Release text

The same fact said without `decimal`: a text of digits, no shorter text having the same value. -/

theorem decimal_injective : Function.Injective decimal := by
  intro left right h
  rw [← digitsValue_decimal left, h, digitsValue_decimal]

/-- A decimal rendering of a number that no other rendering is shorter than. -/
structure ShortestDecimal (text : Bytes) (n : Nat) : Prop where
  nonempty : text ≠ []
  digits : ∀ byte ∈ text, isDigit byte = true
  value : digitsValue text = n
  shortest : ∀ other : Bytes, other ≠ [] → (∀ byte ∈ other, isDigit byte = true) →
    digitsValue other = n → text.length ≤ other.length

/-- The decimal of a value is no longer than any text of digits that has it. -/
theorem length_decimal_le {text : Bytes} (hne : text ≠ [])
    (hdigits : ∀ byte ∈ text, isDigit byte = true) :
    (decimal (digitsValue text)).length ≤ text.length := by
  induction text using List.reverseRecOn with
  | nil => exact absurd rfl hne
  | append_singleton init last ih =>
      have hlast := isDigit_iff.mp (hdigits last (by simp))
      have hsmall : last.toNat - 48 < 10 := by omega
      rw [digitsValue_append, List.length_append, List.length_singleton]
      by_cases hzero : digitsValue init = 0
      · rw [hzero, Nat.mul_zero, Nat.zero_add, decimal_of_lt_ten hsmall, List.length_singleton]
        exact Nat.le_add_left 1 init.length
      · have hinit : init ≠ [] := by
          rintro rfl
          exact hzero rfl
        have hrest := ih hinit fun byte h => hdigits byte (by simp [h])
        rw [decimal_append (Nat.pos_of_ne_zero hzero) hsmall, List.length_append,
          List.length_singleton]
        exact Nat.add_le_add_right hrest 1

theorem digitsValue_zero_cons (text : Bytes) : digitsValue (48 :: text) = digitsValue text := rfl

theorem shortestDecimal_iff {text : Bytes} {n : Nat} :
    ShortestDecimal text n ↔ text = decimal n := by
  constructor
  · rintro ⟨hne, hdigits, rfl, hshortest⟩
    refine (decimal_digitsValue hne hdigits ?_).symm
    by_contra hlong
    rw [not_or, not_not] at hlong
    -- a leading zero could be left out
    obtain ⟨tail, rfl⟩ : ∃ tail, text = 48 :: tail := by
      cases text with
      | nil => exact absurd rfl hne
      | cons first tail => exact ⟨tail, by simpa using hlong.2⟩
    have htail : tail ≠ [] := by
      rintro rfl
      exact hlong.1 rfl
    have hshorter := hshortest tail htail (fun byte h => hdigits byte (List.mem_cons_of_mem 48 h))
      (digitsValue_zero_cons tail).symm
    rw [List.length_cons] at hshorter
    omega
  · rintro rfl
    refine ⟨decimal_ne_nil n, fun byte => isDigit_of_mem_decimal, digitsValue_decimal n, ?_⟩
    rintro other hother hdigits rfl
    exact length_decimal_le hother hdigits

/-- On a scalar, `release_value` fails in one way only. -/
theorem releaseValue_scalar (context : Context) (mark : SourceMark) (text : Bytes)
    (children : List Node) (path : Bytes) :
    (∃ release, releaseValue context ⟨.scalar, mark, text, children⟩ path = .ok release) ∨
      releaseValue context ⟨.scalar, mark, text, children⟩ path =
        .error (failure .invalidValue context.origin path mark
          (ascii "release must be a canonical positive decimal integer")) := by
  have htext : scalarValue context ⟨.scalar, mark, text, children⟩ path = .ok text := rfl
  rw [releaseValue, bind_of_ok htext]
  by_cases hleading : text = [] ∨ (1 < text.length ∧ text.head? = some 48)
  · rw [if_pos hleading]
    exact Or.inr rfl
  · simp only [if_neg hleading]
    by_cases hparsed : (fromChars text).error = true ∨ (fromChars text).rest ≠ [] ∨
        (fromChars text).value = 0 ∨ UInt32.size - 1 < (fromChars text).value
    · rw [if_pos hparsed]
      exact Or.inr rfl
    · rw [if_neg hparsed]
      exact Or.inl ⟨_, rfl⟩

theorem releaseValue_returns_iff {context : Context} {mark : SourceMark} {text : Bytes}
    {children : List Node} {path : Bytes} {n : Nat} :
    (∃ release, releaseValue context ⟨.scalar, mark, text, children⟩ path = .ok release ∧
        release.toNat = n) ↔ ShortestDecimal text n ∧ 1 ≤ n ∧ n ≤ 2 ^ 32 - 1 := by
  simp only [releaseValue_eq_ok_iff, shortestDecimal_iff]
  constructor
  · rintro ⟨release, ⟨_, ⟨-, rfl⟩, hne, rfl⟩, rfl⟩
    have hlt := release.toNat_lt
    have hpositive : release.toNat ≠ 0 := fun h => hne (UInt32.toNat_inj.mp h)
    exact ⟨rfl, by omega, by omega⟩
  · rintro ⟨rfl, hpositive, hbound⟩
    have htoNat : (UInt32.ofNat n).toNat = n := by
      rw [UInt32.toNat_ofNat', Nat.mod_eq_of_lt (by omega)]
    refine ⟨UInt32.ofNat n, ⟨decimal n, ⟨rfl, rfl⟩, fun hzero => ?_, by rw [htoNat]⟩, htoNat⟩
    rw [hzero] at htoNat
    change 0 = n at htoNat
    omega

/-- **Release text.** On a scalar of any bytes, `release_value` returns a number exactly when the
text is its shortest decimal rendering and it is a positive 32-bit number, and fails with
`invalid_value` at the given path and the node's mark on every other text. Each positive 32-bit
number has exactly one text. -/
theorem releaseValue_bijective (context : Context) (mark : SourceMark) (children : List Node)
    (path : Bytes) :
    (∀ text n, (∃ release,
        releaseValue context ⟨.scalar, mark, text, children⟩ path = .ok release ∧
          release.toNat = n) ↔ ShortestDecimal text n ∧ 1 ≤ n ∧ n ≤ 2 ^ 32 - 1) ∧
    (∀ text, (∀ n, ¬(ShortestDecimal text n ∧ 1 ≤ n ∧ n ≤ 2 ^ 32 - 1)) →
      releaseValue context ⟨.scalar, mark, text, children⟩ path =
        .error (failure .invalidValue context.origin path mark
          (ascii "release must be a canonical positive decimal integer"))) ∧
    ∀ n, 1 ≤ n → n ≤ 2 ^ 32 - 1 → ∃! text, ∃ release,
      releaseValue context ⟨.scalar, mark, text, children⟩ path = .ok release ∧
        release.toNat = n := by
  refine ⟨fun text n => releaseValue_returns_iff, fun text hnone => ?_,
    fun n hpositive hbound => ?_⟩
  · rcases releaseValue_scalar context mark text children path with ⟨release, hrelease⟩ | herror
    · exact absurd (releaseValue_returns_iff.mp ⟨release, hrelease, rfl⟩) (hnone release.toNat)
    · exact herror
  · simp only [releaseValue_returns_iff, shortestDecimal_iff]
    exact ⟨decimal n, ⟨rfl, hpositive, hbound⟩, fun other h => h.1⟩

end PkgsourceYaml
