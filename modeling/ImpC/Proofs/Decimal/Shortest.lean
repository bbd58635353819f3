import ImpC.Decimal.Shortest
import ImpC.Proofs.Decimal.Rounding
import Mathlib.Tactic.NormNum

/-!
# The shortest decimal reads as its double

`readsFrom` compares natural numbers. Both sides of a comparison are multiples of the numbers they stand for by the same
factor (`decimalSide_eq`, `dyadicSide_eq`), so it is a comparison of those, and the ends of the interval are the middles of
the gaps around the double. Therefore a decimal reads as a double exactly if it is rounded to it
(`readsFrom_iff_rounds`).

The search for the shortest decimal takes only decimals that read as the double, and it does not come to its end without
one: the multiples of `10 ^ (-324)` are so close together that the largest of them below a double still lies in its cell
(`readsFrom_finest`).
-/

namespace ImpC

/-- The number that a decimal stands for. -/
def Decimal.value (d : Decimal) : ℚ := d.digits * 10 ^ d.exponent

theorem Decimal.value_nonneg (d : Decimal) : 0 ≤ d.value :=
  mul_nonneg (Nat.cast_nonneg _) (zpow_nonneg (by norm_num) _)

namespace Decimal

/-! ### Sides of a comparison -/

/-- What both sides of a comparison are multiplied by. -/
def denominator (e k : ℤ) : ℚ := 10 ^ (-e).toNat * 2 ^ (-k).toNat

theorem denominator_pos (e k : ℤ) : 0 < denominator e k := mul_pos (pow_pos (by norm_num) _) (pow_pos (by norm_num) _)

theorem zpow_mul_pow_toNat {b : ℚ} (hb : b ≠ 0) (e : ℤ) : b ^ e * b ^ (-e).toNat = b ^ e.toNat := by
  rw [← zpow_natCast, ← zpow_natCast, ← zpow_add₀ hb]
  congr 1
  omega

theorem decimalSide_eq (n : ℕ) (e k : ℤ) : (decimalSide n e k : ℚ) = n * 10 ^ e * denominator e k := by
  have hpow := zpow_mul_pow_toNat (b := 10) (by norm_num) e
  calc (decimalSide n e k : ℚ) = n * 10 ^ e.toNat * 2 ^ (-k).toNat := by
        change ((n * 10 ^ e.toNat * 2 ^ (-k).toNat : ℕ) : ℚ) = _
        push_cast
        rfl
    _ = n * 10 ^ e * denominator e k := by
        rw [← hpow, denominator]
        ring

theorem dyadicSide_eq (a : ℕ) (e k : ℤ) : (dyadicSide a e k : ℚ) = a * 2 ^ k * denominator e k := by
  have hpow := zpow_mul_pow_toNat (b := 2) (by norm_num) k
  calc (dyadicSide a e k : ℚ) = a * 2 ^ k.toNat * 10 ^ (-e).toNat := by
        change ((a * 2 ^ k.toNat * 10 ^ (-e).toNat : ℕ) : ℚ) = _
        push_cast
        rfl
    _ = a * 2 ^ k * denominator e k := by
        rw [← hpow, denominator]
        ring

theorem decimalSide_le_iff {n a : ℕ} {e k : ℤ} : decimalSide n e k ≤ dyadicSide a e k ↔ (n : ℚ) * 10 ^ e ≤ a * 2 ^ k := by
  rw [← Nat.cast_le (α := ℚ), decimalSide_eq, dyadicSide_eq, mul_le_mul_iff_left₀ (denominator_pos e k)]

theorem dyadicSide_le_iff {n a : ℕ} {e k : ℤ} : dyadicSide a e k ≤ decimalSide n e k ↔ (a : ℚ) * 2 ^ k ≤ n * 10 ^ e := by
  rw [← Nat.cast_le (α := ℚ), decimalSide_eq, dyadicSide_eq, mul_le_mul_iff_left₀ (denominator_pos e k)]

end Decimal

namespace Binary64

open Decimal

variable {x : Binary64} {d : Decimal} {n : ℕ}

/-! ### The interval of a double -/

theorem significand_pos (hx : x.rank ≠ 0) : 0 < x.significand := by
  rw [significand_eq]
  split <;> omega

theorem atBinade_iff (hx : x.rank = n + 1) : x.atBinade = true ↔ (n + 1) % 2 ^ 52 = 0 ∧ n / 2 ^ 52 ≠ 0 := by
  rw [atBinade, fraction_eq, exponentField_eq, hx, Bool.and_eq_true, beq_iff_eq, decide_eq_true_eq]
  omega

theorem zpow_quarter (x : Binary64) : (2 : ℚ) ^ (x.scale - 2) = gap x.rank / 4 := by
  rw [zpow_sub₀ (by norm_num), zpow_scale]
  norm_num

/-- The upper end of the interval is two quarters of the gap above the double. -/
theorem upper_eq_middle (x : Binary64) : ((4 * x.significand + 2 : ℕ) : ℚ) * 2 ^ (x.scale - 2) = middle x.rank := by
  have hpoint := x.magnitude_eq_point
  rw [magnitude, zpow_scale] at hpoint
  rw [zpow_quarter, middle_eq_add, ← hpoint]
  push_cast
  ring

/-- The lower end of the interval is two quarters of the same gap below the double, or one if the gap below is half as
long. -/
theorem lower_eq_middle (hx : x.rank = n + 1) :
    ((4 * x.significand - if x.atBinade then 1 else 2 : ℕ) : ℚ) * 2 ^ (x.scale - 2) = middle n := by
  have hpos : 0 < x.significand := significand_pos (by omega)
  have hpoint := x.magnitude_eq_point
  rw [magnitude, zpow_scale, hx] at hpoint
  rw [zpow_quarter, hx, middle_eq_sub]
  split
  · next hbinade =>
    obtain ⟨hwrap, hlow⟩ := (atBinade_iff hx).1 hbinade
    rw [gap_succ_binade hwrap hlow] at hpoint ⊢
    rw [Nat.cast_sub (by omega)]
    push_cast
    linarith
  · next hbinade =>
    have hsame : (n + 1) % 2 ^ 52 ≠ 0 ∨ n / 2 ^ 52 = 0 := by
      rw [atBinade_iff hx] at hbinade
      omega
    rw [gap_succ hsame] at hpoint ⊢
    rw [Nat.cast_sub (by omega)]
    push_cast
    linarith

theorem readsFrom_iff_inCell (hx : x.rank ≠ 0) : x.readsFrom d = true ↔ InCell d.value x.rank := by
  obtain ⟨n, hn⟩ : ∃ n, x.rank = n + 1 := ⟨x.rank - 1, by omega⟩
  have hlower := lower_eq_middle hn
  have hupper := x.upper_eq_middle
  rw [hn] at hupper
  rw [hn, inCell_succ_iff, readsFrom, significand_mod_two, hn, ← hlower, ← hupper]
  split
  · rw [Bool.and_eq_true, decide_eq_true_eq, decide_eq_true_eq, dyadicSide_le_iff, decimalSide_le_iff]
    rfl
  · rw [Bool.and_eq_true, decide_eq_true_eq, decide_eq_true_eq, ← not_le, ← not_le, dyadicSide_le_iff, decimalSide_le_iff,
      not_le, not_le]
    rfl

/-- **A decimal reads as a positive finite double exactly if it is rounded to it.** -/
theorem readsFrom_iff_rounds (hsign : x.negative = false) (hzero : x.rank ≠ 0) (hx : x.rank < infiniteRank) :
    x.readsFrom d = true ↔ Rounds d.value x := by
  rw [readsFrom_iff_inCell hzero, rounds_iff_inCell d.value_nonneg hsign hx]

/-! ### The search -/

/-- Only decimals that read as the double are candidates. -/
theorem readsFrom_of_nearestAt {e : ℤ} (h : x.nearestAt e = some d) : x.readsFrom d = true := by
  unfold nearestAt at h
  dsimp only at h
  split at h
  · next hbelow habove =>
    split at h <;> cases h
    · exact hbelow
    · exact habove
  · next hbelow _ =>
    cases h
    exact hbelow
  · next _ habove =>
    cases h
    exact habove
  · cases h

theorem gap_le_two_mul_gap (n : ℕ) : gap (n + 1) ≤ 2 * gap n := by
  have hpos := gap_pos n
  by_cases hbinade : (n + 1) % 2 ^ 52 = 0 ∧ n / 2 ^ 52 ≠ 0
  · rw [gap_succ_binade hbinade.1 hbinade.2]
  · rw [gap_succ (by omega)]
    linarith

/-- Four times the finest step of the search is still less than the shortest gap. -/
theorem four_mul_finest_lt (n : ℕ) : 4 * (10 : ℚ) ^ (-324 : ℤ) < gap n := by
  have hpow : 4 * 2 ^ 1074 < 10 ^ 324 := by decide +kernel
  have hcast : (4 : ℚ) * 2 ^ 1074 < 10 ^ 324 := by exact_mod_cast hpow
  calc 4 * (10 : ℚ) ^ (-324 : ℤ) = 4 / 10 ^ 324 := by
        rw [zpow_neg, ← div_eq_mul_inv]
        rfl
    _ < 1 / 2 ^ 1074 := by
        rw [div_lt_div_iff₀ (pow_pos (by norm_num) _) (pow_pos (by norm_num) _), one_mul]
        exact hcast
    _ = 2 ^ (-1074 : ℤ) := by
        rw [zpow_neg, one_div]
        rfl
    _ ≤ gap n := zpow_le_zpow_right₀ (by norm_num) (by omega)

/-- The multiple of `10 ^ e` that the search looks at first is the last one that is not above the double. -/
theorem below_bounds {e : ℤ} (hd : d = ⟨dyadicSide x.significand e x.scale / decimalSide 1 e x.scale, e⟩) :
    d.value ≤ point x.rank ∧ point x.rank < d.value + 10 ^ e := by
  have hunit : 0 < decimalSide 1 e x.scale :=
    Nat.mul_pos (Nat.mul_pos Nat.one_pos (Nat.pow_pos (by decide))) (Nat.pow_pos (by decide))
  have hside : ∀ m, decimalSide m e x.scale = m * decimalSide 1 e x.scale := by
    intro m
    simp only [decimalSide, one_mul, Nat.mul_assoc]
  have hsucc : d.value + 10 ^ e = (d.digits + 1 : ℕ) * 10 ^ e := by
    rw [Decimal.value, hd]
    push_cast
    ring
  have hle : decimalSide d.digits e x.scale ≤ dyadicSide x.significand e x.scale := by
    rw [hside, hd]
    exact Nat.div_mul_le_self _ _
  have hlt : dyadicSide x.significand e x.scale < decimalSide (d.digits + 1) e x.scale := by
    rw [hside, hd]
    exact Nat.lt_mul_of_div_lt (Nat.lt_succ_self _) hunit
  rw [decimalSide_le_iff] at hle
  rw [← not_le, decimalSide_le_iff, not_le] at hlt
  rw [hsucc, ← magnitude_eq_point]
  exact ⟨le_of_eq_of_le (by rw [Decimal.value, hd]) hle, hlt⟩

/-- The last multiple of `10 ^ (-324)` that is not above a double reads as it. -/
theorem readsFrom_finest (hx : x.rank ≠ 0) :
    x.readsFrom ⟨dyadicSide x.significand (-324) x.scale / decimalSide 1 (-324) x.scale, -324⟩ = true := by
  obtain ⟨n, hn⟩ : ∃ n, x.rank = n + 1 := ⟨x.rank - 1, by omega⟩
  obtain ⟨hle, hlt⟩ := below_bounds (x := x) (e := -324) rfl
  have hfinest := four_mul_finest_lt (n + 1)
  have hgap := gap_le_two_mul_gap n
  have hnext := gap_pos (n + 1)
  rw [readsFrom_iff_inCell hx]
  rw [hn] at hle hlt ⊢
  generalize (10 : ℚ) ^ (-324 : ℤ) = step at hfinest hlt
  -- a quarter of a gap below the double is not yet the middle of the gap before it
  refine inCell_of_lt ?_ ?_
  · rw [middle_eq_sub]
    linarith
  · rw [middle_eq_add]
    linarith

theorem isSome_nearestAt_finest (hx : x.rank ≠ 0) : (x.nearestAt (-324)).isSome = true := by
  unfold nearestAt
  dsimp only
  rw [readsFrom_finest hx]
  split
  · split <;> rfl
  · rfl
  · rfl
  · next hbelow _ => cases hbelow

theorem finest_mem_exponentsFrom {top : ℤ} (h : -324 ≤ top) : -324 ∈ exponentsFrom top := by
  refine List.mem_map.2 ⟨(top + 324).toNat, List.mem_range.2 (by omega), by omega⟩

theorem le_topExponent (x : Binary64) : -324 ≤ x.topExponent := by
  rw [topExponent, scale]
  omega

/-- **The shortest decimal of a double reads as it.** -/
theorem readsFrom_shortest (hx : x.rank ≠ 0) : x.readsFrom x.shortest = true := by
  have hsome : ((exponentsFrom x.topExponent).findSome? x.nearestAt).isSome = true :=
    List.findSome?_isSome_iff.2 ⟨-324, finest_mem_exponentsFrom x.le_topExponent, isSome_nearestAt_finest hx⟩
  obtain ⟨d, hd⟩ := Option.isSome_iff_exists.1 hsome
  obtain ⟨e, -, he⟩ := List.exists_of_findSome?_eq_some hd
  rw [shortest, hd, Option.getD_some]
  exact readsFrom_of_nearestAt he

end Binary64

end ImpC
