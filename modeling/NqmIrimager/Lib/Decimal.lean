import Mathlib.Data.List.Basic

/-!
# `Decimal`: integers written in decimal, and read back

`toString` writes an integer without padding, with a `-` in front of a negative one.
`readInt` reads such a text. `readInt_toString` is the round trip, and the other results
say which characters occur: a text that is split at anything else than a digit or a `-`
keeps its numbers whole.
-/

set_option autoImplicit false

namespace Decimal

/-- The number the digits stand for, unless there are none or a character is no digit. -/
def readNat (cs : List Char) : Option Nat :=
  if !cs.isEmpty && cs.all Char.isDigit then some (Nat.ofDigitChars 10 cs 0) else none

/-- Digits, with a `-` in front or without. -/
def readInt : List Char → Option Int
  | '-' :: cs => (readNat cs).map fun n : Nat => -(n : Int)
  | cs => (readNat cs).map fun n : Nat => (n : Int)

/-! ### What is written -/

/-- A number that is not negative is written as its digits. -/
theorem toString_of_nonneg {n : Int} (h : 0 ≤ n) :
    (toString n).toList = Nat.toDigits 10 n.toNat := by
  rw [Int.toString_eq_repr, Int.repr_eq_if, if_pos h, Nat.toList_repr]

/-- A negative number is a sign before the digits of its amount. -/
theorem toString_of_neg {n : Int} (h : n < 0) :
    (toString n).toList = '-' :: Nat.toDigits 10 (-n).toNat := by
  rw [Int.toString_eq_repr, Int.repr_eq_if, if_neg (by omega), String.toList_append,
    Nat.toList_repr]
  rfl

/-- Base ten has no other characters. -/
theorem isDigit_of_mem_toDigits {n : Nat} {c : Char} (h : c ∈ Nat.toDigits 10 n) :
    c.isDigit = true :=
  Nat.isDigit_of_mem_toDigits (by decide) (by decide) h

/-- A number that is not negative has no sign. -/
theorem isDigit_of_mem {n : Int} (hn : 0 ≤ n) {c : Char} (h : c ∈ (toString n).toList) :
    c.isDigit = true := by
  rw [toString_of_nonneg hn] at h
  exact isDigit_of_mem_toDigits h

/-- A decimal number is digits, and maybe a sign. -/
theorem isDigit_or_sign_of_mem {n : Int} {c : Char} (h : c ∈ (toString n).toList) :
    c.isDigit = true ∨ c = '-' := by
  rcases Int.lt_or_le n 0 with hneg | hpos
  · rw [toString_of_neg hneg] at h
    rcases List.mem_cons.mp h with hsign | hdigit
    · exact Or.inr hsign
    · exact Or.inl (isDigit_of_mem_toDigits hdigit)
  · exact Or.inl (isDigit_of_mem hpos h)

/-! ### The round trip -/

/-- Reading takes back what writing made of a natural number. -/
theorem readNat_toDigits (n : Nat) : readNat (Nat.toDigits 10 n) = some n := by
  have hne : (Nat.toDigits 10 n).isEmpty = false :=
    List.isEmpty_eq_false_iff.mpr Nat.toDigits_ne_nil
  have hall : (Nat.toDigits 10 n).all Char.isDigit = true :=
    List.all_eq_true.mpr fun c hc => isDigit_of_mem_toDigits hc
  rw [readNat, hne, hall, Nat.ofDigitChars_ten_toDigits]
  rfl

/-- Without a sign the text is read as a natural number. -/
theorem readInt_of_digits {cs : List Char} (h : ∀ c ∈ cs, c.isDigit = true) :
    readInt cs = (readNat cs).map fun n : Nat => (n : Int) := by
  unfold readInt
  split
  · have hsign := h '-' List.mem_cons_self
    exact absurd hsign (by decide)
  · rfl

/-- The same for a sign and digits. -/
theorem readInt_toString (n : Int) : readInt (toString n).toList = some n := by
  rcases Int.lt_or_le n 0 with hneg | hpos
  · rw [toString_of_neg hneg, readInt, readNat_toDigits, Option.map_some]
    congr 1
    omega
  · rw [readInt_of_digits fun c hc => isDigit_of_mem hpos hc, toString_of_nonneg hpos,
      readNat_toDigits, Option.map_some]
    congr 1
    omega

end Decimal
