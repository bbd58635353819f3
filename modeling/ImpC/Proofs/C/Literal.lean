import ImpC.Proofs.C.Token

/-!
# Literals are read as what they stand for

The literals of an emitted program as tokens: names are words, numbers their values, and a string literal the text it
was written for (`lexes_textLiteral`). Every finite double is written as a decimal floating constant
(`floatingConstant_magnitudeText`): a point or an exponent always tells it from an integer.

An integer has no literal of its own where it is negative. What stands for it then is an operation on literals in
parentheses, which the grammar puts together.
-/

namespace ImpC.C

/-! ### Words -/

theorem isWordChar_of_isWordStart {c : Char} (h : isWordStart c = true) : isWordChar c = true := by
  rw [isWordStart, Bool.or_eq_true] at h
  rw [isWordChar, Char.isAlphanum, Bool.or_eq_true, Bool.or_eq_true]
  exact h.imp_left .inl

/-- A word in front of a word is part of it. -/
theorem isIdentifier_append {p x : String} (hp : isIdentifier p = true) (hx : isIdentifier x = true) :
    isIdentifier (p ++ x) = true := by
  have hall : x.toList.all isWordChar = true := by
    cases hlist : x.toList with
    | nil => rfl
    | cons c cs =>
      rw [isIdentifier, hlist, isWord, Bool.and_eq_true] at hx
      rw [List.all_cons, isWordChar_of_isWordStart hx.1, hx.2]
      rfl
  rw [isIdentifier, String.toList_append]
  rw [isIdentifier] at hp
  cases hlist : p.toList with
  | nil => rw [hlist] at hp; cases hp
  | cons c cs =>
    rw [hlist, isWord, Bool.and_eq_true] at hp
    rw [List.cons_append, isWord, List.all_append, hp.1, hp.2, hall]
    rfl

theorem isWordChar_of_isDigit {c : Char} (h : c.isDigit = true) : isWordChar c = true := by
  rw [isWordChar, Char.isAlphanum, h, Bool.or_true, Bool.true_or]

/-- The letters in the order of code points. -/
theorem isAlpha_iff_toNat {c : Char} :
    c.isAlpha = true ↔ (65 ≤ c.toNat ∧ c.toNat ≤ 90) ∨ (97 ≤ c.toNat ∧ c.toNat ≤ 122) := by
  change (decide (c.val ≥ 'A'.val ∧ c.val ≤ 'Z'.val) || (c.val ≥ 'a'.val && c.val ≤ 'z'.val)) = true ↔ _
  simp only [Bool.or_eq_true, Bool.and_eq_true, decide_eq_true_eq, ge_iff_le, UInt32.le_iff_toNat_le]
  exact Iff.rfl

/-- No word starts with a digit. -/
theorem not_isWordStart_of_isDigit {c : Char} (h : c.isDigit = true) : isWordStart c = false := by
  have hdigit : c.toNat ≤ 57 := (Char.isDigit_iff_toNat.1 h).2
  rw [Bool.eq_false_iff]
  intro hstart
  rw [isWordStart, Bool.or_eq_true, isAlpha_iff_toNat, beq_iff_eq] at hstart
  -- in the order of code points, digits stand before the letters
  obtain hletter | rfl := hstart
  · omega
  · exact absurd hdigit (by decide)

/-- A word is neither white space nor the beginning of a string or a character. -/
theorem not_isSpace_of_isWordStart {c : Char} (h : isWordStart c = true) :
    isSpace c = false ∧ c ≠ '"' ∧ c ≠ '\'' := by
  refine ⟨?_, ?_, ?_⟩
  · rw [Bool.eq_false_iff]
    intro hspace
    simp only [isSpace, Bool.or_eq_true, beq_iff_eq] at hspace
    obtain (((rfl | rfl) | rfl) | rfl) | rfl := hspace <;> cases h
  · rintro rfl
    cases h
  · rintro rfl
    cases h

theorem lexes_word {w : String} (h : isIdentifier w = true) : Lexes w.toList [.word w] := by
  obtain ⟨c, cs, hw⟩ : ∃ c cs, w.toList = c :: cs := by
    cases hw : w.toList with
    | nil => rw [isIdentifier, hw] at h; cases h
    | cons c cs => exact ⟨c, cs, rfl⟩
  rw [isIdentifier, hw, isWord, Bool.and_eq_true, List.all_eq_true] at h
  obtain ⟨hc, hcs⟩ := h
  obtain ⟨hspace, hquote, htick⟩ := not_isSpace_of_isWordStart hc
  rw [hw]
  intro rest hrest
  -- the longest run of word characters ends with the word, since a delimiter follows
  have htoken : token? (c :: (cs ++ rest)) = some (.word w, rest) := by
    rw [token?, if_neg hquote, if_neg htick, if_pos hc, List.takeWhile_append_of_pos hcs,
      List.dropWhile_append_of_pos hcs, hrest.takeWhile, hrest.dropWhile, List.append_nil, ← hw, String.ofList_toList]
  rw [List.cons_append, lex_cons hspace htoken (by simp)]
  rfl

/-! ### Numbers -/

theorem numberTail_append {last : Char} {cs rest : List Char} (h : numberTail last cs = (cs, [])) (hrest : Delimited rest) :
    numberTail last (cs ++ rest) = (cs, rest) := by
  induction cs generalizing last with
  | nil => exact hrest.numberTail last
  | cons c cs ih =>
    -- whether the number goes on depends on the character before, so `last` varies in the induction
    rw [numberTail] at h
    split at h
    · next hc =>
      have htail : numberTail c cs = (cs, []) := by
        injection h with hcs hrest
        injection hcs with _ hcs
        exact Prod.ext hcs hrest
      rw [List.cons_append, numberTail, if_pos hc, ih htail]
    · injection h with hcs _
      cases hcs

theorem numberTail_cons {last c : Char} {cs : List Char}
    (hc : (isWordChar c || c == '.' || (isExponentMark last && isSign c)) = true) (hcs : numberTail c cs = (cs, [])) :
    numberTail last (c :: cs) = (c :: cs, []) := by
  rw [numberTail, if_pos hc, hcs]

/-- Word characters and points go on with a number, whatever is in front of them. -/
theorem numberTail_eq_self {cs cs' : List Char} (h : ∀ c ∈ cs, isWordChar c = true ∨ c = '.')
    (h' : ∀ last, numberTail last cs' = (cs', [])) (last : Char) : numberTail last (cs ++ cs') = (cs ++ cs', []) := by
  induction cs generalizing last with
  | nil => exact h' last
  | cons c cs ih =>
    obtain ⟨hc, hcs⟩ := List.forall_mem_cons.1 h
    have hgo : (isWordChar c || c == '.' || (isExponentMark last && isSign c)) = true := by
      obtain hc | rfl := hc
      · rw [hc, Bool.true_or, Bool.true_or]
      · rw [beq_self_eq_true, Bool.or_true, Bool.true_or]
    exact numberTail_cons hgo (ih hcs c)

/-- Where a digit stands, a number begins. -/
theorem token?_digit {c : Char} (hc : c.isDigit = true) (cs : List Char) :
    isSpace c = false ∧ token? (c :: cs) = (number? (c :: (numberTail c cs).1)).map (·, (numberTail c cs).2) := by
  have hne : ∀ d : Char, d.isDigit = false → c ≠ d := by
    rintro d hd rfl
    rw [hc] at hd
    cases hd
  refine ⟨by simp [isSpace, hne ' ' rfl, hne '\t' rfl, hne '\n' rfl, hne '\x0b' rfl, hne '\x0c' rfl], ?_⟩
  rw [token?, if_neg (hne '"' rfl), if_neg (hne '\'' rfl), not_isWordStart_of_isDigit hc, if_neg (by decide), hc,
    Bool.true_or, if_pos rfl]

/-- A number is read to its end and then told what it is. -/
theorem lexes_number {c : Char} {cs : List Char} {t : Token} (hc : c.isDigit = true)
    (htail : numberTail c cs = (cs, [])) (ht : number? (c :: cs) = some t) : Lexes (c :: cs) [t] := by
  intro rest hrest
  obtain ⟨hspace, htoken⟩ := token?_digit hc (cs ++ rest)
  rw [numberTail_append htail hrest, ht, Option.map_some] at htoken
  rw [List.cons_append, lex_cons hspace htoken (by simp)]
  rfl

/-! ### Integers -/

/-- The digits end where something else begins. -/
theorem takeWhile_isDigit_append {a b : List Char} (ha : ∀ c ∈ a, c.isDigit = true)
    (hb : ∀ c ∈ b.head?, c.isDigit = false) :
    (a ++ b).takeWhile Char.isDigit = a ∧ (a ++ b).dropWhile Char.isDigit = b := by
  rw [List.takeWhile_append_of_pos ha, List.dropWhile_append_of_pos ha]
  cases b with
  | nil => exact ⟨List.append_nil a, rfl⟩
  | cons c b =>
    have hc : ¬ c.isDigit = true := by rw [hb c rfl]; decide
    rw [List.takeWhile_cons_of_neg hc, List.dropWhile_cons_of_neg hc, List.append_nil]
    exact ⟨rfl, rfl⟩

theorem isDigit_of_mem_digits {n : Nat} : ∀ c ∈ Nat.toDigits 10 n, c.isDigit = true :=
  fun _ hc => Nat.isDigit_of_mem_toDigits (by decide) (by decide) hc

/-- Only zero is written with a leading zero. -/
theorem head?_toDigits_ne {n : Nat} (hn : 0 < n) : (Nat.toDigits 10 n).head? ≠ some '0' := by
  induction n using Nat.strongRecOn with
  | ind n ih =>
    rw [Nat.toDigits_eq_if (by decide)]
    split
    · next hlt =>
      intro h
      have hzero : n.digitChar.toNat = '0'.toNat := by rw [Option.some.inj h]
      rw [Nat.toNat_digitChar_of_lt_ten hlt] at hzero
      exact absurd hzero (by simp; omega)
    · next hle =>
      -- the first digit is that of the number without its last digit
      obtain ⟨d, ds, hds⟩ := List.exists_cons_of_ne_nil (Nat.toDigits_ne_nil (n := n / 10) (b := 10))
      have hhead := ih (n / 10) (by omega) (by omega)
      rw [hds] at hhead ⊢
      exact hhead

/-- The digits of a number, with the suffix or without, are read as the number. -/
theorem integer?_toDigits {n : Nat} {cs : List Char} {isLong : Bool} (hcs : cs = if isLong then ['L', 'L'] else []) :
    integer? (Nat.toDigits 10 n ++ cs) = some (.int n isLong) := by
  have hend : ∀ c ∈ cs.head?, c.isDigit = false := by
    intro c hc
    rw [hcs] at hc
    cases isLong <;> cases hc
    rfl
  obtain ⟨htake, hdrop⟩ := takeWhile_isDigit_append (isDigit_of_mem_digits (n := n)) hend
  have hcanonical : ¬ (Nat.toDigits 10 n = [] ∨
      ((Nat.toDigits 10 n).head? = some '0' ∧ Nat.toDigits 10 n ≠ ['0'])) := by
    rintro (hnil | ⟨hhead, hne⟩)
    · exact Nat.toDigits_ne_nil hnil
    · obtain rfl | hn := Nat.eq_zero_or_pos n
      · exact hne (Nat.toDigits_zero 10)
      · exact head?_toDigits_ne hn hhead
  unfold integer?
  -- reading digits is the inverse of writing them
  rw [htake, hdrop, if_neg hcanonical, hcs]
  cases isLong with
  | false => exact congrArg (fun k => some (Token.int k false)) Nat.ofDigitChars_ten_toDigits
  | true => exact congrArg (fun k => some (Token.int k true)) Nat.ofDigitChars_ten_toDigits

/-- A decimal integer constant, with the suffix or without. -/
theorem lexes_integer {n : Nat} {cs : List Char} {isLong : Bool} (hcs : cs = if isLong then ['L', 'L'] else []) :
    Lexes (Nat.toDigits 10 n ++ cs) [.int n isLong] := by
  obtain ⟨d, ds, hds⟩ := List.exists_cons_of_ne_nil (Nat.toDigits_ne_nil (n := n) (b := 10))
  have hdigits := isDigit_of_mem_digits (n := n)
  have hinteger := integer?_toDigits (n := n) hcs
  rw [hds] at hdigits
  rw [hds, List.cons_append] at hinteger ⊢
  obtain ⟨hd, hdigits⟩ := List.forall_mem_cons.1 hdigits
  refine lexes_number hd ?_ ?_
  · refine numberTail_eq_self (fun c hc => .inl (isWordChar_of_isDigit (hdigits c hc))) (fun last => ?_) d
    rw [hcs]
    cases isLong <;> rfl
  · rw [number?, hinteger]

/-! ### Floating constants -/

/-- Digits followed by a point or by an exponent are no integer constant. -/
theorem integer?_eq_none {ds : List Char} (hds : ∀ d ∈ ds, d.isDigit = true) {c : Char} (hc : c = '.' ∨ c = 'e')
    (cs : List Char) : integer? (ds ++ c :: cs) = none := by
  have hend : ∀ d ∈ (c :: cs).head?, d.isDigit = false := by
    intro d hd
    cases hd
    obtain rfl | rfl := hc <;> rfl
  obtain ⟨htake, hdrop⟩ := takeWhile_isDigit_append hds hend
  unfold integer?
  rw [htake, hdrop]
  obtain rfl | rfl := hc <;> exact ite_self none

/-- The characters are a decimal floating constant, and start with a digit. -/
structure FloatingConstant (cs : List Char) : Prop where
  lexes : Lexes cs [.float (.ofList cs)]
  first : ∀ c ∈ cs.head?, c.isDigit = true

/-- Digits, and then a point or an exponent with what belongs to numbers. -/
theorem floatingConstant_of_isFloating {ds cs : List Char} {c : Char} (hne : ds ≠ []) (hds : ∀ d ∈ ds, d.isDigit = true)
    (hc : c = '.' ∨ c = 'e') (htail : ∀ last, numberTail last (c :: cs) = (c :: cs, []))
    (hfloating : isFloating (ds ++ c :: cs) = true) :
    FloatingConstant (ds ++ c :: cs) := by
  have hinteger := integer?_eq_none hds hc cs
  obtain ⟨d, ds, rfl⟩ := List.exists_cons_of_ne_nil hne
  obtain ⟨hd, hds⟩ := List.forall_mem_cons.1 hds
  rw [List.cons_append] at hinteger hfloating ⊢
  refine ⟨lexes_number hd (numberTail_eq_self (fun e he => .inl (isWordChar_of_isDigit (hds e he))) htail d) ?_, ?_⟩
  · rw [number?, hinteger]
    exact if_pos hfloating
  · intro e he
    cases he
    exact hd

/-- The exponent as it is written: the mark, and an integer with or without a sign. -/
theorem toList_toString_int (z : Int) :
    ∃ n, (toString z).toList = Nat.toDigits 10 n ∨ (toString z).toList = '-' :: Nat.toDigits 10 n := by
  cases z with
  | ofNat n => exact ⟨n, .inl Nat.toList_repr⟩
  | negSucc n =>
    refine ⟨n + 1, .inr ?_⟩
    change ("-" ++ (n + 1).repr).toList = _
    rw [String.toList_append, Nat.toList_repr]
    rfl

theorem isExponent_toString (z : Int) : isExponent ('e' :: (toString z).toList) = true := by
  obtain ⟨n, hz⟩ := toList_toString_int z
  obtain ⟨d, ds, hds⟩ := List.exists_cons_of_ne_nil (Nat.toDigits_ne_nil (n := n) (b := 10))
  have hdigits : (Nat.toDigits 10 n).all Char.isDigit = true := List.all_eq_true.2 isDigit_of_mem_digits
  rw [hds] at hz hdigits
  obtain hz | hz := hz
  -- the first character is a digit, so it is not taken for a sign
  · have hd : isSign d = false := by
      rw [Bool.eq_false_iff]
      intro hsign
      simp only [isSign, Bool.or_eq_true, beq_iff_eq] at hsign
      obtain rfl | rfl := hsign <;> cases hdigits
    rw [hz, isExponent, hd]
    exact hdigits
  · rw [hz]
    exact hdigits

theorem numberTail_exponent (z : Int) (last : Char) :
    numberTail last ('e' :: (toString z).toList) = ('e' :: (toString z).toList, []) := by
  obtain ⟨n, hz⟩ := toList_toString_int z
  have hdigits : ∀ last, numberTail last (Nat.toDigits 10 n) = (Nat.toDigits 10 n, []) := by
    intro last
    rw [← List.append_nil (Nat.toDigits 10 n)]
    exact numberTail_eq_self (fun c hc => .inl (isWordChar_of_isDigit (isDigit_of_mem_digits c hc))) (fun _ => rfl) last
  obtain hz | hz := hz
  · rw [hz]
    exact numberTail_cons rfl (hdigits 'e')
  -- the minus sign belongs to the number only because it follows the mark
  · rw [hz]
    exact numberTail_cons rfl (numberTail_cons rfl (hdigits '-'))

/-- Digits, a point, digits or none, and an exponent or none. -/
theorem floatingConstant_fraction {a b e : List Char} (hne : a ≠ []) (ha : ∀ d ∈ a, d.isDigit = true)
    (hb : ∀ d ∈ b, d.isDigit = true) (he : e = [] ∨ ∃ z : Int, e = 'e' :: (toString z).toList) :
    FloatingConstant (a ++ '.' :: (b ++ e)) := by
  have hexponent : (e.isEmpty || isExponent e) = true ∧ (∀ last, numberTail last e = (e, [])) ∧
      ∀ c ∈ e.head?, c.isDigit = false := by
    obtain rfl | ⟨z, rfl⟩ := he
    · exact ⟨rfl, fun _ => rfl, nofun⟩
    · exact ⟨isExponent_toString z, numberTail_exponent z, fun c hc => by cases hc; rfl⟩
  obtain ⟨hvalid, htail, hend⟩ := hexponent
  refine floatingConstant_of_isFloating hne ha (.inl rfl) (fun last => ?_) ?_
  · rw [← List.cons_append]
    refine numberTail_eq_self (fun c hc => ?_) htail last
    obtain rfl | hc := List.mem_cons.1 hc
    · exact .inr rfl
    · exact .inl (isWordChar_of_isDigit (hb c hc))
  · obtain ⟨htake, hdrop⟩ := takeWhile_isDigit_append (b := '.' :: (b ++ e)) ha (fun c hc => by cases hc; rfl)
    obtain ⟨htake', hdrop'⟩ := takeWhile_isDigit_append hb hend
    unfold isFloating
    rw [htake, hdrop]
    dsimp only
    rw [if_pos rfl, htake', hdrop', List.isEmpty_eq_false_iff.2 hne]
    exact hvalid

/-- Digits and an exponent. -/
theorem floatingConstant_exponent {ds : List Char} (hne : ds ≠ []) (hds : ∀ d ∈ ds, d.isDigit = true) (z : Int) :
    FloatingConstant (ds ++ 'e' :: (toString z).toList) := by
  refine floatingConstant_of_isFloating hne hds (.inr rfl) (numberTail_exponent z) ?_
  obtain ⟨htake, hdrop⟩ :=
    takeWhile_isDigit_append (b := 'e' :: (toString z).toList) hds (fun c hc => by cases hc; rfl)
  unfold isFloating
  rw [htake, hdrop]
  dsimp only
  rw [if_neg (by decide), List.isEmpty_eq_false_iff.2 hne, isExponent_toString]
  rfl

theorem isDigit_of_mem_zeros {n : Nat} : ∀ c ∈ List.replicate n '0', c.isDigit = true := by
  intro c hc
  rw [(List.mem_replicate.1 hc).2]
  rfl

/-- Wherever the point stands, there are digits in front of it. -/
theorem floatingConstant_positional {ds : List Char} (hne : ds ≠ []) (hds : ∀ d ∈ ds, d.isDigit = true) (exponent : Int) :
    FloatingConstant (Decimal.positional ds exponent) := by
  unfold Decimal.positional
  dsimp only
  split
  -- the point stands behind all the digits, among them, or in front of them
  · exact floatingConstant_fraction (e := []) (by simp [hne]) (List.forall_mem_append.2 ⟨hds, isDigit_of_mem_zeros⟩)
      (isDigit_of_mem_zeros (n := 1)) (.inl rfl)
  · split
    · next hwhole =>
      have htake : ds.take (ds.length + exponent).toNat ≠ [] := by
        rw [ne_eq, List.take_eq_nil_iff]
        rintro (hzero | hnil)
        · omega
        · exact hne hnil
      have hconstant := floatingConstant_fraction htake (fun d hd => hds d (List.mem_of_mem_take hd))
        (fun d hd => hds d (List.mem_of_mem_drop (i := (ds.length + exponent).toNat) hd)) (.inl rfl)
      rwa [List.append_nil] at hconstant
    · have hconstant := floatingConstant_fraction (a := ['0']) (by simp) (isDigit_of_mem_zeros (n := 1))
        (List.forall_mem_append.2 ⟨isDigit_of_mem_zeros (n := (-(ds.length + exponent)).toNat), hds⟩) (.inl rfl)
      rwa [List.append_nil] at hconstant

/-- With an exponent there is one digit in front of the point. -/
theorem floatingConstant_scientific {ds : List Char} (hne : ds ≠ []) (hds : ∀ d ∈ ds, d.isDigit = true) (leading : Int) :
    FloatingConstant (Decimal.scientific ds leading) := by
  obtain ⟨d, ds, rfl⟩ := List.exists_cons_of_ne_nil hne
  obtain ⟨hd, hds⟩ := List.forall_mem_cons.1 hds
  have hfirst : ∀ c ∈ [d], c.isDigit = true := fun c hc => by rwa [List.mem_singleton.1 hc]
  cases ds with
  | nil => exact floatingConstant_exponent (by simp) hfirst leading
  | cons e ds => exact floatingConstant_fraction (by simp) hfirst hds (.inr ⟨leading, rfl⟩)

theorem floatingConstant_decimal (d : Decimal) : FloatingConstant d.toText.toList := by
  have hdigits := isDigit_of_mem_digits (n := d.digits)
  unfold Decimal.toText
  dsimp only
  split
  · rw [String.toList_ofList]
    exact floatingConstant_positional Nat.toDigits_ne_nil hdigits _
  · rw [String.toList_ofList]
    exact floatingConstant_scientific Nat.toDigits_ne_nil hdigits _

/-- **The magnitude of a finite double is a floating constant.** -/
theorem floatingConstant_magnitudeText {x : Binary64} (h : x.isInfinite = false) :
    FloatingConstant x.magnitudeText.toList := by
  unfold Binary64.magnitudeText
  rw [h, if_neg (by decide)]
  split
  · exact floatingConstant_fraction (e := []) (by simp) (isDigit_of_mem_zeros (n := 1)) (isDigit_of_mem_zeros (n := 1)) (.inl rfl)
  · exact floatingConstant_decimal x.shortest

/-! ### Characters and strings -/

theorem isOctalDigit_octalDigit (n : Nat) : isOctalDigit (octalDigit n) = true := by
  have h : ∀ k < 8, isOctalDigit (Char.ofNat (48 + k)) = true := by decide
  exact h (n % 8) (Nat.mod_lt n (by decide))

theorem toNat_octalDigit (n : Nat) : (octalDigit n).toNat = 48 + n % 8 := by
  have h : ∀ k < 8, (Char.ofNat (48 + k)).toNat = 48 + k := by decide
  exact h (n % 8) (Nat.mod_lt n (by decide))

/-- Three octal digits are read as the character they are written for, whatever follows. -/
theorem escaped?_octal {n : Nat} (hn : n < 128) (cs : List Char) :
    escaped? (octal n ++ cs) = some (.ofNat n, cs) := by
  -- below 128 three octal digits are enough
  have hcode : Nat.ofDigitChars 8 (octal n) 0 = n := by
    simp only [octal, Nat.ofDigitChars_cons, Nat.ofDigitChars_nil, toNat_octalDigit]
    simp
    omega
  have hrun : octalDigits 2 (octalDigit (n / 8) :: octalDigit n :: cs) = ([octalDigit (n / 8), octalDigit n], cs) := by
    rw [octalDigits, if_pos (isOctalDigit_octalDigit _), octalDigits, if_pos (isOctalDigit_octalDigit _), octalDigits]
  rw [octal] at hcode ⊢
  rw [List.cons_append, List.cons_append, List.cons_append, List.nil_append, escaped?,
    if_pos (isOctalDigit_octalDigit _), hrun]
  dsimp only
  rw [hcode, if_pos hn]

/-- An escape sequence inside a string literal. -/
theorem stringBody?_escape {c : Char} {cs rest : List Char} (h : escaped? cs = some (c, rest)) :
    stringBody? ('\\' :: cs) = (stringBody? rest).map fun (body, rest) => (c :: body, rest) := by
  rw [stringBody?, if_neg (by decide), if_neg (by decide), if_pos rfl]
  split
  · next c' rest' h' =>
    rw [h] at h'
    cases h'
    rfl
  · next h' =>
    rw [h] at h'
    cases h'

/-- A character of a text is read from what is written for it. -/
theorem stringBody?_escapeChar (c : Char) (cs : List Char) :
    stringBody? (escapeChar c ++ cs) = (stringBody? cs).map fun (body, rest) => (c :: body, rest) := by
  unfold escapeChar
  -- one case for each test, in the order in which they are made
  by_cases hquote : c = '"'
  · subst hquote
    exact stringBody?_escape rfl
  rw [if_neg hquote]
  by_cases hbackslash : c = '\\'
  · subst hbackslash
    exact stringBody?_escape rfl
  rw [if_neg hbackslash]
  by_cases hfeed : c = '\n'
  · subst hfeed
    exact stringBody?_escape rfl
  rw [if_neg hfeed]
  by_cases htab : c = '\t'
  · subst htab
    exact stringBody?_escape rfl
  rw [if_neg htab]
  by_cases hreturn : c = '\r'
  · subst hreturn
    exact stringBody?_escape rfl
  rw [if_neg hreturn]
  by_cases hquestion : c = '?'
  · subst hquestion
    exact stringBody?_escape rfl
  rw [if_neg hquestion]
  by_cases hcontrol : isControl c = true
  · rw [if_pos hcontrol]
    have hcode : c.toNat < 128 := by
      simp only [isControl, Bool.or_eq_true, decide_eq_true_eq] at hcontrol
      omega
    have hescaped := escaped?_octal hcode cs
    rw [Char.ofNat_toNat] at hescaped
    exact stringBody?_escape hescaped
  -- a character that stands for itself is none of those that mean something in a literal
  · rw [if_neg hcontrol, List.cons_append, List.nil_append, stringBody?, if_neg hquote, if_neg hfeed, if_neg hbackslash]

/-- The characters up to the closing quote are read as the text they were written for. -/
theorem stringBody?_escape_append (cs rest : List Char) :
    stringBody? (cs.flatMap escapeChar ++ '"' :: rest) = some (cs, rest) := by
  induction cs with
  | nil => rw [List.flatMap_nil, List.nil_append, stringBody?, if_pos rfl]
  | cons c cs ih => rw [List.flatMap_cons, List.append_assoc, stringBody?_escapeChar, ih, Option.map_some]

/-- **A string literal is read as its text.** -/
theorem lexes_textLiteral (s : String) : Lexes (textLiteral s).toList [.text s] := by
  intro rest _
  -- a literal ends with its quote, whatever follows
  have htext : (textLiteral s).toList ++ rest = '"' :: (s.toList.flatMap escapeChar ++ '"' :: rest) := by
    simp [textLiteral, escape]
  have htoken : token? ('"' :: (s.toList.flatMap escapeChar ++ '"' :: rest)) = some (.text s, rest) := by
    rw [token?, if_pos rfl, stringBody?_escape_append, Option.map_some]
    dsimp only
    rw [String.ofList_toList]
  rw [htext, lex_cons rfl htoken (by simp; omega)]
  rfl

theorem lexes_nul : Lexes ['\'', '\\', '0', '\''] [.char '\x00'] := by
  intro rest _
  have htoken : token? ('\'' :: '\\' :: '0' :: '\'' :: rest) = some (.char '\x00', rest) := rfl
  exact lex_cons rfl htoken (by simp; omega)

end ImpC.C
