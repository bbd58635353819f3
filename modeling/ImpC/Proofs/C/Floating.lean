import ImpC.Proofs.C.Literal
import ImpC.Proofs.Decimal.Shortest
import Mathlib.Tactic.FieldSimp

/-!
# Float literals denote their doubles

A floating constant of C stands for a decimal, exactly: the digits on both sides of its point with the exponent behind them
(`floatingDecimal`). Its value as a `double` is that decimal, rounded. What is written for a decimal stands for it again,
wherever the point is put (`value_floatingDecimal_toText`), and the shortest decimal of a double is rounded to it; so the
literal of a finite double is read as that double and no other (`doubleLiteral_exact`).
-/

namespace ImpC.C

open Binary64 (InCell Rounds)

/-! ### The decimal of a constant -/

/-- The exponent that is written behind the digits of a floating constant, with its mark. -/
def exponentOf : List Char → ℤ
  | [] | [_] => 0
  | _ :: c :: cs =>
    if c = '-' then -(Nat.ofDigitChars 10 cs 0 : ℤ)
    else if c = '+' then (Nat.ofDigitChars 10 cs 0 : ℤ)
    else (Nat.ofDigitChars 10 (c :: cs) 0 : ℤ)

/-- The decimal that a floating constant stands for. -/
def floatingDecimal (cs : List Char) : Decimal :=
  let whole := cs.takeWhile Char.isDigit
  match cs.dropWhile Char.isDigit with
  | [] => ⟨Nat.ofDigitChars 10 whole 0, 0⟩
  | c :: rest =>
    if c = '.' then
      let fraction := rest.takeWhile Char.isDigit
      ⟨Nat.ofDigitChars 10 (whole ++ fraction) 0, exponentOf (rest.dropWhile Char.isDigit) - fraction.length⟩
    else ⟨Nat.ofDigitChars 10 whole 0, exponentOf (c :: rest)⟩

theorem exponentOf_toString (z : ℤ) : exponentOf ('e' :: (toString z).toList) = z := by
  cases z with
  | ofNat n =>
    have hz : (toString (Int.ofNat n)).toList = Nat.toDigits 10 n := Nat.toList_repr
    have hdigits := isDigit_of_mem_digits (n := n)
    have hvalue := Nat.ofDigitChars_ten_toDigits (n := n)
    obtain ⟨d, ds, hds⟩ := List.exists_cons_of_ne_nil (Nat.toDigits_ne_nil (n := n) (b := 10))
    rw [hds] at hz hdigits hvalue
    have hd := hdigits d List.mem_cons_self
    have hminus : d ≠ '-' := by rintro rfl; cases hd
    have hplus : d ≠ '+' := by rintro rfl; cases hd
    rw [hz, exponentOf, if_neg hminus, if_neg hplus, hvalue]
    rfl
  | negSucc n =>
    have hz : (toString (Int.negSucc n)).toList = '-' :: Nat.toDigits 10 (n + 1) := by
      change ("-" ++ (n + 1).repr).toList = _
      rw [String.toList_append, Nat.toList_repr]
      rfl
    rw [hz, exponentOf, if_pos rfl, Nat.ofDigitChars_ten_toDigits]
    rfl

/-- Digits, a point, digits or none, and an exponent or none. -/
theorem floatingDecimal_fraction {a b e : List Char} (ha : ∀ d ∈ a, d.isDigit = true) (hb : ∀ d ∈ b, d.isDigit = true)
    (he : ∀ c ∈ e.head?, c.isDigit = false) :
    floatingDecimal (a ++ '.' :: (b ++ e)) = ⟨Nat.ofDigitChars 10 (a ++ b) 0, exponentOf e - b.length⟩ := by
  obtain ⟨htake, hdrop⟩ := takeWhile_isDigit_append (b := '.' :: (b ++ e)) ha (fun c hc => by cases hc; rfl)
  obtain ⟨htake', hdrop'⟩ := takeWhile_isDigit_append hb he
  unfold floatingDecimal
  rw [htake, hdrop]
  dsimp only
  rw [if_pos rfl, htake', hdrop']

-- the zero at the end counts as a digit, so it does not change the number
example : floatingDecimal "12.50e-3".toList = ⟨1250, -5⟩ := rfl

/-- Digits with a point among them. -/
theorem floatingDecimal_point {a b : List Char} (ha : ∀ d ∈ a, d.isDigit = true) (hb : ∀ d ∈ b, d.isDigit = true) :
    floatingDecimal (a ++ '.' :: b) = ⟨Nat.ofDigitChars 10 (a ++ b) 0, -b.length⟩ := by
  have hfraction := floatingDecimal_fraction (e := []) ha hb (fun _ hc => by cases hc)
  rwa [List.append_nil, exponentOf, zero_sub] at hfraction

/-- Digits and an exponent. -/
theorem floatingDecimal_exponent {ds : List Char} (hds : ∀ d ∈ ds, d.isDigit = true) (z : ℤ) :
    floatingDecimal (ds ++ 'e' :: (toString z).toList) = ⟨Nat.ofDigitChars 10 ds 0, z⟩ := by
  obtain ⟨htake, hdrop⟩ :=
    takeWhile_isDigit_append (b := 'e' :: (toString z).toList) hds (fun c hc => by cases hc; rfl)
  unfold floatingDecimal
  rw [htake, hdrop]
  dsimp only
  rw [if_neg (by decide), exponentOf_toString]

/-! ### What is written for a decimal -/

/-- Zeros behind the digits of a decimal, and as many less in its exponent. -/
theorem value_trailing_zeros (n k : ℕ) (e : ℤ) : (⟨10 ^ k * n, e - k⟩ : Decimal).value = (n : ℚ) * 10 ^ e := by
  rw [Decimal.value, zpow_sub₀ (by norm_num), zpow_natCast]
  push_cast
  field_simp

/-- Wherever the point is put, the decimal is the same. -/
theorem value_floatingDecimal_positional {ds : List Char} (hds : ∀ d ∈ ds, d.isDigit = true) (e : ℤ) :
    (floatingDecimal (Decimal.positional ds e)).value = (Nat.ofDigitChars 10 ds 0 : ℚ) * 10 ^ e := by
  unfold Decimal.positional
  dsimp only
  split
  · next hexponent =>
    -- zeros fill the places up to the point, and one stands behind it
    have hpoint := floatingDecimal_point (List.forall_mem_append.2 ⟨hds, isDigit_of_mem_zeros (n := e.toNat)⟩)
      (isDigit_of_mem_zeros (n := 1))
    have hlength : (-(List.replicate 1 '0').length : ℤ) = e - (e.toNat + 1 : ℕ) := by
      rw [List.length_replicate]
      omega
    rw [List.append_assoc ds _ (List.replicate 1 '0'), List.replicate_append_replicate, Nat.ofDigitChars_append,
      Nat.ofDigitChars_replicate_zero, hlength] at hpoint
    exact (congrArg Decimal.value hpoint).trans (value_trailing_zeros _ _ _)
  · split
    · next hwhole =>
      have hlength : (-(ds.drop (ds.length + e).toNat).length : ℤ) = e := by
        rw [List.length_drop]
        omega
      rw [floatingDecimal_point (fun d hd => hds d (List.mem_of_mem_take hd)) (fun d hd => hds d (List.mem_of_mem_drop hd)),
        List.take_append_drop, hlength, Decimal.value]
    · next hwhole =>
      -- zeros in front of the digits do not count
      have hpoint := floatingDecimal_point (isDigit_of_mem_zeros (n := 1))
        (List.forall_mem_append.2 ⟨isDigit_of_mem_zeros (n := (-(ds.length + e)).toNat), hds⟩)
      have hlength : (-(List.replicate (-(ds.length + e)).toNat '0' ++ ds).length : ℤ) = e := by
        rw [List.length_append, List.length_replicate]
        omega
      rw [← List.append_assoc, List.replicate_append_replicate, Nat.ofDigitChars_append, Nat.ofDigitChars_replicate_zero,
        Nat.mul_zero, hlength] at hpoint
      exact congrArg Decimal.value hpoint

/-- The exponent counts from the first digit, so it is larger by the number of the digits behind it. -/
theorem floatingDecimal_scientific {ds : List Char} (hne : ds ≠ []) (hds : ∀ d ∈ ds, d.isDigit = true) (e : ℤ) :
    floatingDecimal (Decimal.scientific ds (ds.length - 1 + e)) = ⟨Nat.ofDigitChars 10 ds 0, e⟩ := by
  obtain ⟨d, ds, rfl⟩ := List.exists_cons_of_ne_nil hne
  obtain ⟨hd, hds⟩ := List.forall_mem_cons.1 hds
  have hfirst : ∀ c ∈ [d], c.isDigit = true := fun c hc => by rwa [List.mem_singleton.1 hc]
  have hlength : ((d :: ds).length - 1 + e : ℤ) = ds.length + e := by
    rw [List.length_cons]
    omega
  rw [hlength]
  cases ds with
  | nil =>
    have hexponent := floatingDecimal_exponent hfirst e
    rw [List.length_nil, Nat.cast_zero, zero_add]
    exact hexponent
  | cons c ds =>
    have hfraction := floatingDecimal_fraction (e := 'e' :: (toString ((c :: ds).length + e : ℤ)).toList) hfirst hds
      (fun c hc => by cases hc; rfl)
    rw [exponentOf_toString, add_sub_cancel_left] at hfraction
    exact hfraction

/-- **What is written for a decimal stands for it.** -/
theorem value_floatingDecimal_toText (d : Decimal) : (floatingDecimal d.toText.toList).value = d.value := by
  have hdigits := isDigit_of_mem_digits (n := d.digits)
  unfold Decimal.toText
  dsimp only
  split
  · rw [String.toList_ofList, value_floatingDecimal_positional hdigits, Nat.ofDigitChars_ten_toDigits, Decimal.value]
  · rw [String.toList_ofList, floatingDecimal_scientific Nat.toDigits_ne_nil hdigits, Nat.ofDigitChars_ten_toDigits]

/-! ### Literals -/

/-- What a number is told to be a floating constant by. -/
theorem number?_eq_float {cs : List Char} {s : String} (h : number? cs = some (.float s)) :
    integer? cs = none ∧ isFloating cs = true ∧ s = .ofList cs := by
  unfold number? at h
  split at h
  · next t hinteger =>
    unfold integer? at hinteger
    dsimp only at hinteger
    split at hinteger
    · cases hinteger
    · split at hinteger <;> cases hinteger <;> cases h
  · next hinteger =>
    split at h
    · next hfloating =>
      cases h
      exact ⟨hinteger, hfloating, rfl⟩
    · cases h

/-- What is divided into a single floating constant is that constant. -/
theorem FloatingConstant.number?_eq {cs : List Char} (h : FloatingConstant cs) : number? cs = some (.float (.ofList cs)) := by
  have hlex := h.lexes.lex_eq
  cases cs with
  | nil =>
    rw [lex] at hlex
    cases hlex
  | cons c cs =>
    have hc : c.isDigit = true := h.first c rfl
    obtain ⟨hspace, htoken⟩ := token?_digit hc cs
    rw [lex, if_neg (by rw [hspace]; exact Bool.false_ne_true), htoken] at hlex
    -- what the lexer has taken for the number is all of the text, since nothing but the number has come of it
    cases hnumber : number? (c :: (numberTail c cs).1) with
    | none =>
      rw [hnumber] at hlex
      cases hlex
    | some t =>
      rw [hnumber, Option.map_some] at hlex
      dsimp only at hlex
      split at hlex
      · obtain ⟨ts, -, hts⟩ := Option.map_eq_some_iff.1 hlex
        obtain ⟨rfl, -⟩ := List.cons.inj hts
        have hspelling := (number?_eq_float hnumber).2.2
        rw [← String.ofList_injective hspelling] at hnumber
        exact hnumber
      · cases hlex

/-- What is written for the magnitude of a finite double stands for a number of its cell. -/
theorem inCell_magnitudeText {x : Binary64} (h : x.isInfinite = false) :
    InCell (floatingDecimal x.magnitudeText.toList).value x.rank := by
  unfold Binary64.magnitudeText
  rw [h, if_neg Bool.false_ne_true]
  split
  · next hzero =>
    have hdecimal : floatingDecimal "0.0".toList = ⟨0, -1⟩ := rfl
    rw [Binary64.isZero_iff.1 hzero, hdecimal, Decimal.value, Nat.cast_zero, zero_mul]
    exact Binary64.inCell_zero
  · next hzero =>
    have hrank : x.rank ≠ 0 := fun hrank => hzero (Binary64.isZero_iff.2 hrank)
    rw [value_floatingDecimal_toText, ← Binary64.readsFrom_iff_inCell hrank]
    exact Binary64.readsFrom_shortest hrank

/-- **The literal of a double denotes it.** What is not finite is a macro of `math.h`. For a finite double there is a decimal
floating constant, in parentheses and behind a minus sign if the sign bit is set. The decimal it stands for is rounded to
exactly one double, which with that sign is the double itself, bit by bit. -/
theorem doubleLiteral_exact (x : Binary64) :
    (x.isNaN = true → doubleLiteral x = "NAN" ∧ needsMath x = true) ∧
    (x.isInfinite = true →
      doubleLiteral x = (if x.negative then "(-INFINITY)" else "INFINITY") ∧ needsMath x = true) ∧
    (x.isNaN = false → x.isInfinite = false →
      needsMath x = false ∧
      ∃ constant : String,
        doubleLiteral x = (if x.negative then "(-" ++ constant ++ ")" else constant) ∧
        FloatingConstant constant.toList ∧ isFloating constant.toList = true ∧ integer? constant.toList = none ∧
        ∀ y : Binary64, Rounds (floatingDecimal constant.toList).value y ↔ (if x.negative then y.neg else y) = x) := by
  refine ⟨fun hnan => ?_, fun hinfinite => ?_, fun hnan hinfinite => ?_⟩
  · rw [doubleLiteral, needsMath, hnan]
    exact ⟨rfl, rfl⟩
  · have hnan : x.isNaN = false := Binary64.isNaN_eq_false_iff.2 (Binary64.isInfinite_iff.1 hinfinite).le
    rw [doubleLiteral, needsMath, hnan, hinfinite]
    exact ⟨rfl, rfl⟩
  · have hconstant := floatingConstant_magnitudeText hinfinite
    obtain ⟨hinteger, hfloating, -⟩ := number?_eq_float hconstant.number?_eq
    refine ⟨by rw [needsMath, hnan, hinfinite]; rfl, x.magnitudeText, ?_, hconstant, hfloating, hinteger, fun y => ?_⟩
    · rw [doubleLiteral, Binary64.toText, hnan, hinfinite]
      cases x.negative with
      | false => rfl
      | true =>
        have hsign : "(" ++ ("-" ++ x.magnitudeText) = "(-" ++ x.magnitudeText := String.append_assoc.symm
        exact congrArg (· ++ ")") hsign
    · exact (inCell_magnitudeText hinfinite).rounds_iff (Decimal.value_nonneg _) hnan

/-- The least magnitude of all, behind a sign: one digit, no point, and an exponent. -/
theorem doubleLiteral_exact_least :
    doubleLiteral ⟨0x7FF8000000000000⟩ = "NAN" ∧ doubleLiteral ⟨0xFFF0000000000000⟩ = "(-INFINITY)" ∧
      doubleLiteral ⟨0x8000000000000001⟩ = "(-5e-324)" ∧
      ∀ y : Binary64, Rounds (floatingDecimal "5e-324".toList).value y ↔ y.neg = ⟨0x8000000000000001⟩ := by
  have hliteral : doubleLiteral ⟨0x8000000000000001⟩ = "(-" ++ "5e-324" ++ ")" := by decide +kernel
  obtain ⟨-, constant, htext, -, -, -, hrounds⟩ :=
    (doubleLiteral_exact ⟨0x8000000000000001⟩).2.2 (by decide +kernel) (by decide +kernel)
  -- the constant in the literal is the one between the sign and the parenthesis
  have hconstant : constant = "5e-324" := by
    rw [if_pos (by decide +kernel), hliteral, ← String.toList_inj] at htext
    simp only [String.toList_append] at htext
    exact (String.toList_inj.1 (List.append_cancel_left (List.append_cancel_right htext))).symm
  refine ⟨((doubleLiteral_exact ⟨0x7FF8000000000000⟩).1 (by decide +kernel)).1, ?_, hliteral, fun y => ?_⟩
  · exact ((doubleLiteral_exact ⟨0xFFF0000000000000⟩).2.1 (by decide +kernel)).1
  · have hy := hrounds y
    rwa [hconstant, if_pos (by decide +kernel)] at hy

end ImpC.C
