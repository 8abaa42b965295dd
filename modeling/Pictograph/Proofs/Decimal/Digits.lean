import Mathlib.Data.Nat.Digits.Defs
import Pictograph.Decimal.Shortest

/-!
The digits of a number that is not zero are not those of zero: the point that its shortest text
shows lies on a grid no coarser than its first digit, so it is not the point at zero.
-/

namespace Pictograph.Decimal

/-! ## The first digit -/

theorem pow_length_le {n : Nat} (pos : 0 < n) : 10 ^ ((Nat.toDigits 10 n).length - 1) ≤ n := by
  rcases Nat.eq_zero_or_pos ((Nat.toDigits 10 n).length - 1) with one | more
  · rw [one]
    exact pos
  · by_contra less
    have short := (Nat.length_toDigits_le_iff (by decide) more).2 (Nat.lt_of_not_le less)
    omega

theorem lt_pow_length (n : Nat) : n < 10 ^ (Nat.toDigits 10 n).length :=
  (Nat.length_toDigits_le_iff (by decide) Nat.length_toDigits_pos).1 le_rfl

namespace Ratio

variable {r : Ratio} {k : Int}

theorem one_le_floor (den : 0 < r.den) (le : r.den ≤ r.num) : 1 ≤ r.floor :=
  (Nat.one_le_div_iff den).2 le

theorem one_le_floor_overTen (num : 0 < r.num) (den : 0 < r.den) (h : k ≤ r.leading) :
    1 ≤ (r.overTen k).floor := by
  have denPos : 0 < (r.overTen k).den := Nat.mul_pos den (Nat.pow_pos (by decide))
  refine one_le_floor denPos ?_
  show r.den * 10 ^ k.toNat ≤ r.num * 10 ^ (-k).toNat
  unfold leading at h
  split at h
  · next large =>
    have digits := pow_length_le (n := r.floor) (one_le_floor den large)
    have fine : k.toNat ≤ (Nat.toDigits 10 r.floor).length - 1 := by omega
    calc r.den * 10 ^ k.toNat
        ≤ r.den * 10 ^ ((Nat.toDigits 10 r.floor).length - 1) :=
          Nat.mul_le_mul_left _ (Nat.pow_le_pow_right (by decide) fine)
      _ ≤ r.den * r.floor := Nat.mul_le_mul_left _ digits
      _ ≤ r.num := Nat.mul_div_le r.num r.den
      _ ≤ r.num * 10 ^ (-k).toNat := Nat.le_mul_of_pos_right _ (Nat.pow_pos (by decide))
  · next small =>
    have positive : 0 < (Nat.toDigits 10 (r.den / r.num)).length := Nat.length_toDigits_pos
    dsimp only at h
    split at h
    · next reached =>
      have whole : k.toNat = 0 := by omega
      have fine : (Nat.toDigits 10 (r.den / r.num)).length - 1 ≤ (-k).toNat := by omega
      rw [whole, Nat.pow_zero, Nat.mul_one]
      exact reached.trans (Nat.mul_le_mul_left _ (Nat.pow_le_pow_right (by decide) fine))
    · have whole : k.toNat = 0 := by omega
      have fine : (Nat.toDigits 10 (r.den / r.num)).length ≤ (-k).toNat := by omega
      have below := lt_pow_length (r.den / r.num)
      rw [whole, Nat.pow_zero, Nat.mul_one]
      calc r.den ≤ r.num * (r.den / r.num + 1) := (Nat.lt_mul_div_succ r.den num).le
        _ ≤ r.num * 10 ^ (Nat.toDigits 10 (r.den / r.num)).length := Nat.mul_le_mul_left _ below
        _ ≤ r.num * 10 ^ (-k).toNat :=
          Nat.mul_le_mul_left _ (Nat.pow_le_pow_right (by decide) fine)

end Ratio

/-! ## The point that is shown -/

namespace Window

variable {w : Window} {k : Int} {n : Nat}

theorem ne_zero_of_has (low : 0 < w.low.num) (h : w.has k n = true) : n ≠ 0 := by
  rintro rfl
  have grid : 0 < (w.low.overTen k).num := Nat.mul_pos low (Nat.pow_pos (by decide))
  unfold has at h
  dsimp only at h
  split at h <;> simp only [Bool.and_eq_true, decide_eq_true_eq, Nat.zero_mul] at h <;> omega

theorem ne_zero_of_pick? {value : Ratio} (low : 0 < w.low.num)
    (h : w.pick? value k = some n) : n ≠ 0 := by
  unfold pick? at h
  dsimp only at h
  split at h
  · next here _ =>
    cases h
    have below := ne_zero_of_has low here
    have := (value.overTen k).floor_le_round
    omega
  · next here _ =>
    cases h
    exact ne_zero_of_has low here
  · cases h
    exact Nat.succ_ne_zero _
  · cases h

theorem low_around {mantissa : Nat} (pos : 0 < mantissa) (exponent : Int) :
    0 < (around mantissa exponent).low.num := by
  refine Nat.mul_pos ?_ (Nat.pow_pos (by decide))
  split <;> omega

end Window

theorem exists_shortest_digits {mantissa : Nat} (pos : 0 < mantissa) (exponent : Int) :
    ∃ n, n ≠ 0 ∧ (shortest mantissa exponent).digits = dropZeros (Text.decimal n) := by
  unfold shortest
  dsimp only
  refine ⟨_, ?_, rfl⟩
  have value : 0 < (Ratio.scaled mantissa exponent).num := Nat.mul_pos pos (Nat.pow_pos (by decide))
  have unit : 0 < (Ratio.scaled mantissa exponent).den := Nat.pow_pos (by decide)
  cases found : (List.range 17).findSome? fun (n : Nat) =>
      ((Window.around mantissa exponent).pick? (Ratio.scaled mantissa exponent)
        ((Ratio.scaled mantissa exponent).leading - n)).map fun d =>
          (d, (Ratio.scaled mantissa exponent).leading - n) with
  | some p =>
    obtain ⟨n, -, picked⟩ := List.exists_of_findSome?_eq_some found
    obtain ⟨d, here, rfl⟩ := Option.map_eq_some_iff.1 picked
    exact Window.ne_zero_of_pick? (Window.low_around pos exponent) here
  | none =>
    have floor := Ratio.one_le_floor_overTen value unit
      (k := (Ratio.scaled mantissa exponent).leading - 16) (by omega)
    have := Ratio.floor_le_round
      ((Ratio.scaled mantissa exponent).overTen ((Ratio.scaled mantissa exponent).leading - 16))
    simp only [Option.getD_none]
    omega

end Pictograph.Decimal
