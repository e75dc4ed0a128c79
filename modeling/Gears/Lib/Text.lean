import Mathlib.Data.String.Basic

/-!
# Texts

* `isBlank` : no text, or only Unicode white space.
* `toDigits_inj`, `toString_nat_injective` : a number is read back from its digits.
-/

namespace Gears

/-- Unicode white space. -/
def isWhiteSpace (c : Char) : Bool :=
  let n := c.toNat
  (0x9 ≤ n && n ≤ 0xD) || n == 0x20 || n == 0x85 || n == 0xA0 || n == 0x1680 ||
    (0x2000 ≤ n && n ≤ 0x200A) || n == 0x2028 || n == 0x2029 || n == 0x202F || n == 0x205F ||
    n == 0x3000

/-- No text, or only white space. -/
def isBlank (text : Option String) : Bool := text.all fun t => t.toList.all isWhiteSpace

theorem toDigits_inj {n m : ℕ} (h : Nat.toDigits 10 n = Nat.toDigits 10 m) : n = m := by
  rw [← Nat.ofDigitChars_ten_toDigits (n := n), h, Nat.ofDigitChars_ten_toDigits]

theorem toString_nat_injective {n m : ℕ} (h : toString n = toString m) : n = m := by
  refine toDigits_inj ?_
  rw [← Nat.toList_repr, ← Nat.toList_repr, ← Nat.toString_eq_repr, ← Nat.toString_eq_repr, h]

theorem isDigit_of_mem_toString {n : ℕ} {c : Char} (h : c ∈ (toString n).toList) : c.isDigit := by
  rw [Nat.toString_eq_repr, Nat.toList_repr] at h
  exact Nat.isDigit_of_mem_toDigits (by decide) (by decide) h

end Gears
