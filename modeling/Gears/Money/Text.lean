import Gears.Lib.Text
import Gears.Money.Decimal

/-!
# The canonical text of a decimal

`canonicalDecimal` is the text under which an amount is stored, hashed and compared.  It can be
read back:

* `Decimal.toText_inj` : the text determines the coefficient and the scale.
* `canonicalDecimal_inj` : on normalized decimals the canonical text is injective.
-/

namespace Gears.Money

open List

namespace Decimal

theorem digitChar_inj {a b : ℕ} (ha : a < 10) (hb : b < 10) (h : a.digitChar = b.digitChar) :
    a = b := by
  have : ∀ a < 10, ∀ b < 10, a.digitChar = b.digitChar → a = b := by decide
  exact this a ha b hb h

@[simp] theorem length_fractionDigits (n s : ℕ) : (fractionDigits n s).length = s := by
  induction s generalizing n with
  | zero => rfl
  | succ s ih => rw [fractionDigits, length_append, ih, length_singleton]

theorem fractionDigits_inj {n m s : ℕ} (h : fractionDigits n s = fractionDigits m s) :
    n % 10 ^ s = m % 10 ^ s := by
  induction s generalizing n m with
  | zero => rw [pow_zero, Nat.mod_one, Nat.mod_one]
  | succ s ih =>
    obtain ⟨hhigh, hlow⟩ := append_inj h (by simp)
    have hlow := digitChar_inj (Nat.mod_lt n (by decide)) (Nat.mod_lt m (by decide))
      (singleton_inj.1 hlow)
    rw [pow_succ', Nat.mod_mul, Nat.mod_mul, ih hhigh, hlow]

/-- Integer digits and what follows them, when that is empty or starts with a point. -/
theorem toDigits_append_inj {n m : ℕ} {s t : List Char} (hs : ∀ c ∈ s.head?, c = '.')
    (ht : ∀ c ∈ t.head?, c = '.') (h : Nat.toDigits 10 n ++ s = Nat.toDigits 10 m ++ t) :
    n = m ∧ s = t := by
  have hdigit : ∀ (k : ℕ), ∀ c ∈ Nat.toDigits 10 k, Char.isDigit c = true := fun k c hc =>
    Nat.isDigit_of_mem_toDigits (by decide) (by decide) hc
  have hspan : ∀ (k : ℕ) (r : List Char), (∀ c ∈ r.head?, c = '.') →
      (Nat.toDigits 10 k ++ r).span Char.isDigit = (Nat.toDigits 10 k, r) := by
    intro k r hr
    rw [span_eq_takeWhile_dropWhile, takeWhile_append_of_pos (hdigit k),
      dropWhile_append_of_pos (hdigit k)]
    cases r with
    | nil => simp
    | cons c r =>
      have hc : c = '.' := hr c rfl
      subst hc
      rw [takeWhile_cons_of_neg (by decide), dropWhile_cons_of_neg (by decide), append_nil]
  have := hspan n s hs
  rw [h, hspan m t ht, Prod.mk.injEq] at this
  exact ⟨(toDigits_inj this.1).symm, this.2.symm⟩

/-- The text behind the sign starts with a digit, so it does not start with a minus. -/
theorem cons_minus_ne {l : List Char} {n : ℕ} {s : List Char} :
    '-' :: l ≠ Nat.toDigits 10 n ++ s := by
  intro h
  cases hd : Nat.toDigits 10 n with
  | nil => exact Nat.toDigits_ne_nil hd
  | cons c cs =>
    have hc : c ∈ Nat.toDigits 10 n := by rw [hd]; exact mem_cons_self
    rw [hd, cons_append, List.cons.injEq] at h
    have hdigit := Nat.isDigit_of_mem_toDigits (by decide) (by decide) hc
    rw [← h.1] at hdigit
    cases hdigit

/-- **The text of a decimal determines its coefficient and its scale.** -/
theorem toText_inj {a b : Decimal} (h : a.toText = b.toText) : a = b := by
  have htail : ∀ d : Decimal, ∀ c ∈ (if d.scale = 0 then []
      else '.' :: fractionDigits d.mantissa.natAbs d.scale).head?, c = '.' := by
    intro d c
    split
    · intro hc; cases hc
    · intro hc; cases hc; rfl
  -- the sign, then the integer digits with the fraction behind them
  have hparts : (a.mantissa < 0 ↔ b.mantissa < 0) ∧
      Nat.toDigits 10 (a.mantissa.natAbs / 10 ^ a.scale) ++
          (if a.scale = 0 then [] else '.' :: fractionDigits a.mantissa.natAbs a.scale) =
        Nat.toDigits 10 (b.mantissa.natAbs / 10 ^ b.scale) ++
          (if b.scale = 0 then [] else '.' :: fractionDigits b.mantissa.natAbs b.scale) := by
    unfold toText at h
    by_cases ha : a.mantissa < 0
    · by_cases hb : b.mantissa < 0
      · simp only [ha, hb, append_assoc, append_cancel_left_eq] at h
        exact ⟨iff_of_true ha hb, h⟩
      · simp only [ha, hb] at h
        exact absurd h cons_minus_ne
    · by_cases hb : b.mantissa < 0
      · simp only [ha, hb] at h
        exact absurd h.symm cons_minus_ne
      · simp only [ha, hb] at h
        exact ⟨iff_of_false ha hb, h⟩
  obtain ⟨hsign, hbody⟩ := hparts
  obtain ⟨hint, hfrac⟩ := toDigits_append_inj (htail a) (htail b) hbody
  have hscale : a.scale = b.scale := by
    have hlen := congrArg List.length hfrac
    by_cases ha : a.scale = 0 <;> by_cases hb : b.scale = 0 <;> simp [ha, hb] at hlen ⊢
    exact hlen
  have hrest : a.mantissa.natAbs % 10 ^ a.scale = b.mantissa.natAbs % 10 ^ a.scale := by
    by_cases ha : a.scale = 0
    · rw [ha, pow_zero, Nat.mod_one, Nat.mod_one]
    · rw [← hscale, if_neg ha, if_neg ha, List.cons.injEq] at hfrac
      exact fractionDigits_inj hfrac.2
  have habs : a.mantissa.natAbs = b.mantissa.natAbs := by
    rw [← hscale] at hint
    rw [← Nat.div_add_mod a.mantissa.natAbs (10 ^ a.scale), hint, hrest, Nat.div_add_mod]
  have hmantissa : a.mantissa = b.mantissa := by omega
  cases a
  simp_all

end Decimal

/-- **Canonical text is injective on normalized decimals.** -/
theorem canonicalDecimal_inj {a b : Decimal} (ha : Decimal.Normalized a.mantissa a.scale)
    (hb : Decimal.Normalized b.mantissa b.scale) (h : canonicalDecimal a = canonicalDecimal b) :
    a = b := by
  have ht := Decimal.toText_inj (String.ofList_injective h)
  rwa [Decimal.normalize_eq_self ha, Decimal.normalize_eq_self hb] at ht

end Gears.Money
