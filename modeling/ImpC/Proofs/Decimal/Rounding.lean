import ImpC.Binary64
import Mathlib.Algebra.Order.Field.Power
import Mathlib.Data.Rat.Cast.Order
import Mathlib.Order.Monotone.Basic
import Mathlib.Tactic.Linarith
import Mathlib.Tactic.Ring

/-!
# Rounding to the nearest double

`Rounds v x` says that the number `v` is rounded to `x`: no double is nearer to `v`, and half-way between two doubles it
is the one with the even significand. This speaks of all doubles at once. To see it from the two neighbours of `x` alone,
the magnitudes are counted in their order. `point n` is the `n`-th of them, and the place of a double in that order is its
word without the sign (`magnitude_eq_point`), so neighbours have words that differ by one and significands of different
parity.

From a point to the next one it is a unit in the last place, `gap n`, and a number is rounded up behind the middle of the
gap. The numbers that are rounded to the `n`-th double are those of its cell, between the middles on either side
(`rounds_iff_inCell`). Cells meet in the middle of a gap only, and there the parity decides; so a number is rounded to
one double at the most (`Rounds.unique`).
-/

namespace ImpC.Binary64

variable {v : ℚ} {x y : Binary64} {n : ℕ}

/-! ### Rounding -/

/-- The magnitude. That of an infinity is the power of two behind the largest finite double, where the doubles would go on
with a larger exponent. -/
def magnitude (x : Binary64) : ℚ := x.significand * 2 ^ x.scale

/-- The number that a double stands for. -/
def value (x : Binary64) : ℚ := if x.negative then -x.magnitude else x.magnitude

/-- The number `v` is rounded to the double `x`: to the nearest one, and to the one with the even significand if another
one is as near. A number that is nearer to the place of an infinity than to any finite double overflows. The sign is kept
where a negative number is rounded to zero. -/
structure Rounds (v : ℚ) (x : Binary64) : Prop where
  sign : x.negative = true ↔ v < 0
  notNaN : x.isNaN = false
  nearest : ∀ y : Binary64, y.isNaN = false → |v - x.value| ≤ |v - y.value|
  even : ∀ y : Binary64, y.isNaN = false → y.value ≠ x.value → |v - y.value| = |v - x.value| → x.significand % 2 = 0

/-- The double with the other sign. The carry out of the highest bit is lost. -/
def neg (x : Binary64) : Binary64 := ⟨x.bits + 0x8000000000000000⟩

/-! ### The magnitudes in their order -/

/-- The distance from the `n`-th magnitude to the next one, a unit in the last place. -/
def gap (n : ℕ) : ℚ := 2 ^ ((max (n / 2 ^ 52) 1 : ℕ) - 1075 : ℤ)

/-- The magnitudes of doubles in increasing order. -/
def point : ℕ → ℚ
  | 0 => 0
  | n + 1 => point n + gap n

/-- The middle of the gap behind the `n`-th magnitude. -/
def middle (n : ℕ) : ℚ := (point n + point (n + 1)) / 2

theorem gap_pos (n : ℕ) : 0 < gap n := zpow_pos (by norm_num) _

theorem strictMono_point : StrictMono point :=
  strictMono_nat_of_lt_succ fun n => lt_add_of_pos_right (point n) (gap_pos n)

theorem middle_eq_add (n : ℕ) : middle n = point n + gap n / 2 := by
  rw [middle, point]
  ring

theorem middle_eq_sub (n : ℕ) : middle n = point (n + 1) - gap n / 2 := by
  rw [middle, point]
  ring

theorem strictMono_middle : StrictMono middle := by
  intro m n hmn
  have hlow := strictMono_point hmn
  have hhigh := strictMono_point (Nat.succ_lt_succ hmn)
  rw [middle, middle]
  linarith

theorem point_nonneg (n : ℕ) : 0 ≤ point n := strictMono_point.monotone (Nat.zero_le n)

/-- Within a binade the gaps are equally long; below the first one they are as long as within it. -/
theorem gap_succ (h : (n + 1) % 2 ^ 52 ≠ 0 ∨ n / 2 ^ 52 = 0) : gap (n + 1) = gap n := by
  have hmax : max ((n + 1) / 2 ^ 52) 1 = max (n / 2 ^ 52) 1 := by omega
  rw [gap, gap, hmax]

/-- Into the next binade the gaps become twice as long. -/
theorem gap_succ_binade (h : (n + 1) % 2 ^ 52 = 0) (hn : n / 2 ^ 52 ≠ 0) : gap (n + 1) = 2 * gap n := by
  have hmax : ((max ((n + 1) / 2 ^ 52) 1 : ℕ) - 1075 : ℤ) = 1 + ((max (n / 2 ^ 52) 1 : ℕ) - 1075 : ℤ) := by omega
  rw [gap, gap, hmax, zpow_add₀ (by norm_num), zpow_one]

/-- A point is a whole number of the gaps behind it. That number is the significand. -/
theorem point_eq (n : ℕ) :
    point n = ((if n / 2 ^ 52 = 0 then n % 2 ^ 52 else 2 ^ 52 + n % 2 ^ 52 : ℕ) : ℚ) * gap n := by
  induction n with
  | zero => simp [point]
  | succ n ih =>
    rw [point, ih]
    by_cases hwrap : (n + 1) % 2 ^ 52 = 0
    · have hmod : n % 2 ^ 52 = 2 ^ 52 - 1 := by omega
      have hdiv : ¬ (n + 1) / 2 ^ 52 = 0 := by omega
      by_cases hlow : n / 2 ^ 52 = 0
      -- the last subnormal number, from which it goes on into the first binade with the same gaps
      · rw [gap_succ (.inr hlow), if_pos hlow, if_neg hdiv, hmod, hwrap]
        push_cast
        ring
      -- the last number of a binade
      · rw [gap_succ_binade hwrap hlow, if_neg hlow, if_neg hdiv, hmod, hwrap]
        push_cast
        ring
    · have hmod : (n + 1) % 2 ^ 52 = n % 2 ^ 52 + 1 := by omega
      have hdiv : (n + 1) / 2 ^ 52 = n / 2 ^ 52 := by omega
      rw [gap_succ (.inl hwrap), hmod, hdiv]
      split <;> push_cast <;> ring

/-! ### The place of a double -/

/-- The place of the magnitude of a double in the order of magnitudes: its word without the sign. -/
def rank (x : Binary64) : ℕ := x.bits.toNat % 2 ^ 63

/-- The place of the infinities. -/
def infiniteRank : ℕ := 2047 * 2 ^ 52

/-- The double without a sign that has the given place. -/
def ofRank (n : ℕ) : Binary64 := ⟨.ofNat n⟩

theorem rank_lt (x : Binary64) : x.rank < 2 ^ 63 := Nat.mod_lt _ (by norm_num)

theorem eq_iff_bits : x = y ↔ x.bits.toNat = y.bits.toNat := by
  cases x
  cases y
  rw [mk.injEq, UInt64.toNat_inj]

theorem exponentField_eq (x : Binary64) : x.exponentField = x.rank / 2 ^ 52 := by
  change x.bits.toNat / 2 ^ 52 % 2 ^ 11 = x.bits.toNat % 2 ^ 63 / 2 ^ 52
  omega

theorem fraction_eq (x : Binary64) : x.fraction = x.rank % 2 ^ 52 := by
  change x.bits.toNat % 2 ^ 52 = x.bits.toNat % 2 ^ 63 % 2 ^ 52
  omega

theorem significand_eq (x : Binary64) :
    x.significand = if x.rank / 2 ^ 52 = 0 then x.rank % 2 ^ 52 else 2 ^ 52 + x.rank % 2 ^ 52 := by
  rw [significand, exponentField_eq, fraction_eq]
  rfl

theorem zpow_scale (x : Binary64) : (2 : ℚ) ^ x.scale = gap x.rank := by
  rw [scale, exponentField_eq, gap]

theorem magnitude_eq_point (x : Binary64) : x.magnitude = point x.rank := by
  rw [magnitude, significand_eq, zpow_scale, ← point_eq]

/-- Significands of neighbours differ in their parity, as their places do. -/
theorem significand_mod_two (x : Binary64) : x.significand % 2 = x.rank % 2 := by
  rw [significand_eq]
  split <;> omega

theorem isNaN_eq_false_iff : x.isNaN = false ↔ x.rank ≤ infiniteRank := by
  have hlt := x.rank_lt
  rw [isNaN, exponentField_eq, fraction_eq, infiniteRank, Bool.and_eq_false_iff, beq_eq_false_iff_ne, bne_eq_false_iff_eq]
  omega

theorem isInfinite_iff : x.isInfinite = true ↔ x.rank = infiniteRank := by
  rw [isInfinite, exponentField_eq, fraction_eq, infiniteRank, Bool.and_eq_true, beq_iff_eq, beq_iff_eq]
  omega

theorem isZero_iff : x.isZero = true ↔ x.rank = 0 := by
  rw [isZero, exponentField_eq, fraction_eq, Bool.and_eq_true, beq_iff_eq, beq_iff_eq]
  omega

theorem negative_eq_false_iff : x.negative = false ↔ x.bits.toNat < 2 ^ 63 := by
  change decide (2 ^ 63 ≤ x.bits.toNat) = false ↔ _
  rw [decide_eq_false_iff_not, not_le]

theorem value_eq_point (h : x.negative = false) : x.value = point x.rank := by
  rw [value, h, if_neg Bool.false_ne_true, magnitude_eq_point]

/-- Without a sign, a double is its place. -/
theorem eq_of_rank_eq (hx : x.negative = false) (hy : y.negative = false) (h : x.rank = y.rank) : x = y := by
  rw [negative_eq_false_iff] at hx hy
  rwa [eq_iff_bits, ← Nat.mod_eq_of_lt hx, ← Nat.mod_eq_of_lt hy]

theorem toNat_bits_ofRank (h : n < 2 ^ 63) : (ofRank n).bits.toNat = n :=
  UInt64.toNat_ofNat_of_lt (by rw [UInt64.size]; omega)

theorem rank_ofRank (h : n < 2 ^ 63) : (ofRank n).rank = n := by
  rw [rank, toNat_bits_ofRank h, Nat.mod_eq_of_lt h]

theorem negative_ofRank (h : n < 2 ^ 63) : (ofRank n).negative = false := by
  rw [negative_eq_false_iff, toNat_bits_ofRank h]
  exact h

theorem lt_of_le_infiniteRank (h : n ≤ infiniteRank) : n < 2 ^ 63 := by
  rw [infiniteRank] at h
  omega

/-- The places up to that of the infinities are taken by numbers. -/
theorem ofRank_spec (h : n ≤ infiniteRank) : (ofRank n).isNaN = false ∧ (ofRank n).value = point n := by
  have hlt := lt_of_le_infiniteRank h
  rw [isNaN_eq_false_iff, value_eq_point (negative_ofRank hlt), rank_ofRank hlt]
  exact ⟨h, rfl⟩

/-! ### Cells -/

/-- The number lies between the middles of the gaps on both sides of the `n`-th magnitude. The middles belong to the cell
if `n` is even. -/
structure InCell (v : ℚ) (n : ℕ) : Prop where
  le_middle : v ≤ middle n
  middle_le : ∀ m, n = m + 1 → middle m ≤ v
  even : v = middle n ∨ (∃ m, n = m + 1 ∧ v = middle m) → n % 2 = 0

/-- The larger of two numbers is the nearer one behind their middle. -/
theorem abs_sub_right_le_iff {a b : ℚ} (h : a < b) : |v - b| ≤ |v - a| ↔ a + b ≤ 2 * v := by
  rw [← sq_le_sq]
  constructor <;> intro hle <;> nlinarith

/-- The smaller of two numbers is the nearer one in front of their middle. -/
theorem abs_sub_left_le_iff {a b : ℚ} (h : a < b) : |v - a| ≤ |v - b| ↔ 2 * v ≤ a + b := by
  rw [← sq_le_sq]
  constructor <;> intro hle <;> nlinarith

/-- The cell of a magnitude that is not zero, with its ends or without them. -/
theorem inCell_succ_iff :
    InCell v (n + 1) ↔
      if (n + 1) % 2 = 0 then middle n ≤ v ∧ v ≤ middle (n + 1) else middle n < v ∧ v < middle (n + 1) := by
  split
  · next heven =>
    refine ⟨fun h => ⟨h.middle_le n rfl, h.le_middle⟩, fun ⟨hlow, hhigh⟩ => ⟨hhigh, fun m hm => ?_, fun _ => heven⟩⟩
    cases hm
    exact hlow
  · next hodd =>
    constructor
    · intro h
      refine ⟨lt_of_le_of_ne (h.middle_le n rfl) fun htie => hodd (h.even (.inr ⟨n, rfl, htie.symm⟩)), ?_⟩
      exact lt_of_le_of_ne h.le_middle fun htie => hodd (h.even (.inl htie))
    · rintro ⟨hlow, hhigh⟩
      refine ⟨hhigh.le, fun m hm => ?_, ?_⟩
      · cases hm
        exact hlow.le
      · rintro (htie | ⟨m, hm, htie⟩)
        · exact absurd htie hhigh.ne
        · cases hm
          exact absurd htie hlow.ne'

theorem inCell_zero : InCell 0 0 where
  le_middle := by
    rw [middle_eq_add]
    exact add_nonneg (point_nonneg 0) (div_pos (gap_pos 0) two_pos).le
  middle_le _ hm := absurd hm (Nat.succ_ne_zero _).symm
  even _ := rfl

theorem inCell_of_lt (hlow : middle n < v) (hhigh : v < middle (n + 1)) : InCell v (n + 1) := by
  rw [inCell_succ_iff]
  split
  · exact ⟨hlow.le, hhigh.le⟩
  · exact ⟨hlow, hhigh⟩

/-- From within a cell, its own point is the nearest one, and where another one is as near, `n` is even. -/
theorem InCell.nearest (h : InCell v n) {m : ℕ} (hm : m ≠ n) :
    |v - point n| ≤ |v - point m| ∧ (|v - point m| ≤ |v - point n| → n % 2 = 0) := by
  obtain hlt | hlt := Nat.lt_or_gt_of_ne hm
  · -- a point before the cell is not behind the one before it
    obtain ⟨p, rfl⟩ : ∃ p, n = p + 1 := ⟨n - 1, by omega⟩
    have hpoint := strictMono_point hlt
    have hle : point m ≤ point p := strictMono_point.monotone (by omega)
    have hmiddle := h.middle_le p rfl
    rw [middle] at hmiddle
    rw [abs_sub_right_le_iff hpoint, abs_sub_left_le_iff hpoint]
    refine ⟨by linarith, fun htie => h.even (.inr ⟨p, rfl, ?_⟩)⟩
    rw [middle]
    linarith
  · have hpoint := strictMono_point hlt
    have hle : point (n + 1) ≤ point m := strictMono_point.monotone hlt
    have hmiddle := h.le_middle
    rw [middle] at hmiddle
    rw [abs_sub_left_le_iff hpoint, abs_sub_right_le_iff hpoint]
    refine ⟨by linarith, fun htie => h.even (.inl ?_)⟩
    rw [middle]
    linarith

/-- A double with a sign is no nearer to a number that is not negative than the one without it. -/
theorem abs_sub_point_le (hv : 0 ≤ v) (y : Binary64) : |v - point y.rank| ≤ |v - y.value| := by
  have hpoint := point_nonneg y.rank
  rw [value, magnitude_eq_point]
  split
  · rw [abs_of_nonneg (by linarith : 0 ≤ v - -point y.rank), abs_le]
    constructor <;> linarith
  · exact le_refl _

/-- Zero lies in the first cell only, so the number of any other cell is nearer to its point than to the opposite. -/
theorem InCell.value_eq_of_rank_eq (h : InCell v n) (hv : 0 ≤ v) (hy : y.rank = n) (hdist : |v - y.value| = |v - point n|) :
    y.value = point n := by
  have hpoint := point_nonneg n
  rw [value, magnitude_eq_point, hy] at hdist ⊢
  split at hdist
  · next hneg =>
    rw [if_pos hneg]
    rw [abs_of_nonneg (by linarith : 0 ≤ v - -point n)] at hdist
    obtain habs | habs := abs_cases (v - point n)
    · linarith
    · -- the distances agree only at zero, which lies before the middle of the first gap
      cases n with
      | zero => exact neg_zero
      | succ m =>
        have hzero : v = 0 := by linarith
        have hmiddle := h.middle_le m rfl
        have hpos : (0 : ℚ) < point (m + 1) := strictMono_point (Nat.succ_pos m)
        have hprev := point_nonneg m
        rw [middle] at hmiddle
        linarith
  · next hneg => rw [if_neg hneg]

/-! ### The cell of a double -/

theorem rounds_of_inCell (hv : 0 ≤ v) (hsign : x.negative = false) (hx : x.isNaN = false) (h : InCell v x.rank) :
    Rounds v x where
  sign := by
    rw [hsign]
    exact ⟨fun hneg => absurd hneg Bool.false_ne_true, fun hneg => absurd hv (not_le.2 hneg)⟩
  notNaN := hx
  nearest y _ := by
    rw [value_eq_point hsign]
    refine le_trans ?_ (abs_sub_point_le hv y)
    by_cases hrank : y.rank = x.rank
    · rw [hrank]
    · exact (h.nearest hrank).1
  even y _ hne hdist := by
    rw [value_eq_point hsign] at hne hdist
    rw [significand_mod_two]
    by_cases hrank : y.rank = x.rank
    · exact absurd (h.value_eq_of_rank_eq hv hrank hdist) hne
    · exact (h.nearest hrank).2 (le_of_le_of_eq (abs_sub_point_le hv y) hdist)

theorem Rounds.negative_eq_false (h : Rounds v x) (hv : 0 ≤ v) : x.negative = false := by
  rw [Bool.eq_false_iff]
  exact fun hneg => absurd hv (not_le.2 (h.sign.1 hneg))

/-- A number is not behind the middle of the gap that follows the double it is rounded to. -/
theorem Rounds.le_middle (h : Rounds v x) (hv : 0 ≤ v) (hx : x.rank < infiniteRank) :
    v ≤ middle x.rank ∧ (v = middle x.rank → x.rank % 2 = 0) := by
  obtain ⟨hnext, hvalue⟩ := ofRank_spec (n := x.rank + 1) hx
  have hpoint := strictMono_point (Nat.lt_succ_self x.rank)
  have hnearest := h.nearest _ hnext
  have heven := h.even _ hnext
  rw [value_eq_point (h.negative_eq_false hv), hvalue] at hnearest heven
  rw [significand_mod_two] at heven
  rw [middle]
  refine ⟨?_, fun htie => heven hpoint.ne' (le_antisymm ?_ hnearest)⟩
  · have := (abs_sub_left_le_iff hpoint).1 hnearest
    linarith
  · exact (abs_sub_right_le_iff hpoint).2 (by linarith)

/-- A number is not in front of the middle of the gap before the double it is rounded to. -/
theorem Rounds.middle_le (h : Rounds v x) (hv : 0 ≤ v) (hx : x.rank = n + 1) :
    middle n ≤ v ∧ (v = middle n → x.rank % 2 = 0) := by
  have hle := isNaN_eq_false_iff.1 h.notNaN
  obtain ⟨hprev, hvalue⟩ := ofRank_spec (n := n) (by omega)
  have hpoint := strictMono_point (Nat.lt_succ_self n)
  have hnearest := h.nearest _ hprev
  have heven := h.even _ hprev
  rw [value_eq_point (h.negative_eq_false hv), hvalue] at hnearest heven
  rw [significand_mod_two] at heven
  rw [hx] at hnearest heven ⊢
  rw [middle]
  refine ⟨?_, fun htie => heven hpoint.ne (le_antisymm ?_ hnearest)⟩
  · have := (abs_sub_right_le_iff hpoint).1 hnearest
    linarith
  · exact (abs_sub_left_le_iff hpoint).2 (by linarith)

/-- The numbers that are rounded to a finite double without a sign are those of its cell. -/
theorem rounds_iff_inCell (hv : 0 ≤ v) (hsign : x.negative = false) (hx : x.rank < infiniteRank) :
    Rounds v x ↔ InCell v x.rank := by
  refine ⟨fun h => ?_, rounds_of_inCell hv hsign (isNaN_eq_false_iff.2 hx.le)⟩
  refine ⟨(h.le_middle hv hx).1, fun m hm => (h.middle_le hv hm).1, ?_⟩
  rintro (htie | ⟨m, hm, htie⟩)
  · exact (h.le_middle hv hx).2 htie
  · exact (h.middle_le hv hm).2 htie

/-- No number is rounded to two doubles of which one has its place before the other. -/
theorem Rounds.not_rank_lt (hx : Rounds v x) (hy : Rounds v y) (hv : 0 ≤ v) : ¬ x.rank < y.rank := by
  intro hlt
  have hle := isNaN_eq_false_iff.1 hy.notNaN
  obtain ⟨n, hn⟩ : ∃ n, y.rank = n + 1 := ⟨y.rank - 1, by omega⟩
  obtain ⟨hupper, hxeven⟩ := hx.le_middle hv (by omega)
  obtain ⟨hlower, hyeven⟩ := hy.middle_le hv hn
  -- the middles are in the order of the places, so the two cells share a middle and are neighbours
  have hrank : x.rank = n := by
    refine le_antisymm (by omega) (strictMono_middle.le_iff_le.1 ?_)
    exact le_trans hlower hupper
  rw [hrank] at hupper hxeven
  have hmiddle : v = middle n := le_antisymm hupper hlower
  have := hxeven hmiddle
  have := hyeven hmiddle
  omega

/-- **A number is rounded to one double.** -/
theorem Rounds.unique (hx : Rounds v x) (hy : Rounds v y) (hv : 0 ≤ v) : x = y := by
  have hrank : x.rank = y.rank :=
    le_antisymm (not_lt.1 (hy.not_rank_lt hx hv)) (not_lt.1 (hx.not_rank_lt hy hv))
  exact eq_of_rank_eq (hx.negative_eq_false hv) (hy.negative_eq_false hv) hrank

/-! ### Signs -/

/-- The double of the same place without a sign becomes `x` again when it is given the sign of `x`. -/
theorem signed_eq_iff : (if x.negative then y.neg else y) = x ↔ y = ofRank x.rank := by
  have hx := x.bits.toNat_lt
  have hy := y.bits.toNat_lt
  rw [eq_iff_bits, eq_iff_bits, toNat_bits_ofRank x.rank_lt, rank]
  split
  · next hneg =>
    have hneg : 2 ^ 63 ≤ x.bits.toNat := of_decide_eq_true hneg
    rw [neg, UInt64.toNat_add]
    change (y.bits.toNat + 9223372036854775808) % 2 ^ 64 = _ ↔ _
    omega
  · next hneg =>
    have hneg := negative_eq_false_iff.1 (Bool.eq_false_iff.2 hneg)
    omega

/-- **From a cell only its own double is reached**, without the sign it has. -/
theorem InCell.rounds_iff (h : InCell v x.rank) (hv : 0 ≤ v) (hx : x.isNaN = false) :
    Rounds v y ↔ (if x.negative then y.neg else y) = x := by
  have hle := isNaN_eq_false_iff.1 hx
  have hlt := lt_of_le_infiniteRank hle
  have hrounds : Rounds v (ofRank x.rank) := by
    refine rounds_of_inCell hv (negative_ofRank hlt) (ofRank_spec hle).1 ?_
    rw [rank_ofRank hlt]
    exact h
  rw [signed_eq_iff]
  refine ⟨fun hy => hy.unique hrounds hv, ?_⟩
  rintro rfl
  exact hrounds

end ImpC.Binary64
