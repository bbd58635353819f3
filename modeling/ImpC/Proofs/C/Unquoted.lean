import ImpC.Proofs.C.Literal

/-!
# Characters outside of string literals

`unquoted` gives the characters of a text that stand outside of its string literals. It knows nothing of tokens: a quote
opens a literal, the next one closes it, and inside of a literal the character behind a backslash is passed over.

A division is written with one of the characters of `divisionSigns`. If none of the tokens of a text is spelled with one
(`Token.spellsDivision`), then none of these characters stands outside of the string literals (`forall_mem_unquoted`). So the
characters of a text are known from its tokens, however long the tokens are and whatever stands between them.
-/

namespace ImpC.C

/-- Where a character of a text stands with respect to string literals. -/
inductive Quoting where
  | outside
  | inside
  /-- Inside of a literal and behind a backslash. -/
  | escaped
  deriving DecidableEq, Repr, Inhabited

/-- The characters outside of string literals, of a text that starts as told. -/
@[simp] def unquoted : Quoting → List Char → List Char
  | _, [] => []
  | .outside, c :: cs => if c = '"' then unquoted .inside cs else c :: unquoted .outside cs
  | .inside, c :: cs => unquoted (if c = '"' then .outside else if c = '\\' then .escaped else .inside) cs
  | .escaped, _ :: cs => unquoted .inside cs

/-- The characters that a division or a remainder is written with. -/
def divisionSigns : List Char := ['/', '%']

/-- The token is spelled with one of these characters, or with a quote that is none of a string literal. -/
def Token.spellsDivision : Token → Bool
  | .op o => o.isGuarded
  | .other s => s.toList.any (· ∈ divisionSigns)
  | .char c => c ∈ '"' :: divisionSigns
  | .word _ | .int .. | .float _ | .text _ | .assign | .comma | .openParen | .closeParen | .openBracket | .closeBracket
  | .openBrace | .closeBrace => false

/-- The characters are neither division signs nor quotes. -/
def IsNeutral (cs : List Char) : Prop := ∀ c ∈ cs, c ∉ '"' :: divisionSigns

variable {cs rest : List Char}

theorem IsNeutral.append {ds : List Char} (h : IsNeutral cs) (h' : IsNeutral ds) : IsNeutral (cs ++ ds) :=
  List.forall_mem_append.2 ⟨h, h'⟩

theorem isNeutral_cons {c : Char} (hc : c ∉ '"' :: divisionSigns) (h : IsNeutral cs) : IsNeutral (c :: cs) :=
  List.forall_mem_cons.2 ⟨hc, h⟩

/-- Characters other than quotes are passed on. -/
theorem unquoted_append (h : IsNeutral cs) : unquoted .outside (cs ++ rest) = cs ++ unquoted .outside rest := by
  induction cs with
  | nil => rfl
  | cons c cs ih =>
    obtain ⟨hc, hcs⟩ := List.forall_mem_cons.1 h
    have hquote : c ≠ '"' := fun heq => hc (heq ▸ List.mem_cons_self)
    rw [List.cons_append, unquoted, if_neg hquote, ih hcs, List.cons_append]

/-! ### Characters of tokens -/

theorem neutral_of_isWordChar {c : Char} (h : isWordChar c = true) : c ∉ '"' :: divisionSigns := by
  intro hc
  simp only [divisionSigns, List.mem_cons, List.not_mem_nil, or_false] at hc
  obtain rfl | rfl | rfl := hc <;> revert h <;> decide

theorem neutral_of_isOctalDigit {c : Char} (h : isOctalDigit c = true) : c ∉ '"' :: divisionSigns := by
  intro hc
  simp only [divisionSigns, List.mem_cons, List.not_mem_nil, or_false] at hc
  obtain rfl | rfl | rfl := hc <;> revert h <;> decide

theorem numberTail_split (last : Char) (cs : List Char) :
    cs = (numberTail last cs).1 ++ (numberTail last cs).2 ∧ IsNeutral (numberTail last cs).1 := by
  fun_induction numberTail last cs with
  | case1 => exact ⟨rfl, List.forall_mem_nil _⟩
  | case2 last c cs hc tail rest heq ih =>
    rw [heq] at ih
    refine ⟨congrArg (c :: ·) ih.1, isNeutral_cons ?_ ih.2⟩
    simp only [Bool.or_eq_true, Bool.and_eq_true, beq_iff_eq] at hc
    obtain (hword | rfl) | ⟨-, hsign⟩ := hc
    · exact neutral_of_isWordChar hword
    · decide
    · simp only [isSign, Bool.or_eq_true, beq_iff_eq] at hsign
      obtain rfl | rfl := hsign <;> decide
  | case3 => exact ⟨rfl, List.forall_mem_nil _⟩

theorem octalDigits_split (bound : Nat) (cs : List Char) :
    cs = (octalDigits bound cs).1 ++ (octalDigits bound cs).2 ∧ ∀ c ∈ (octalDigits bound cs).1, isOctalDigit c = true := by
  fun_induction octalDigits bound cs with
  | case1 cs => exact ⟨rfl, List.forall_mem_nil _⟩
  | case2 => exact ⟨rfl, List.forall_mem_nil _⟩
  | case3 bound c cs hc digits rest heq ih =>
    rw [heq] at ih
    exact ⟨congrArg (c :: ·) ih.1, List.forall_mem_cons.2 ⟨hc, ih.2⟩⟩
  | case4 => exact ⟨rfl, List.forall_mem_nil _⟩

/-- An escape sequence is one character behind the backslash and octal digits. -/
theorem escaped?_split {d : Char} (h : escaped? cs = some (d, rest)) :
    ∃ c digits, cs = c :: (digits ++ rest) ∧ (∀ e ∈ digits, isOctalDigit e = true) ∧
      (isOctalDigit c = true ∨ (c, d) ∈ simpleEscapes) := by
  cases cs with
  | nil => cases h
  | cons c cs =>
    rw [escaped?] at h
    split at h
    · next hc =>
      dsimp only at h
      split at h
      · cases h
        obtain ⟨hsplit, hdigits⟩ := octalDigits_split 2 cs
        exact ⟨c, _, congrArg (c :: ·) hsplit, hdigits, .inl hc⟩
      · cases h
    · obtain ⟨e, he, heq⟩ := Option.map_eq_some_iff.1 h
      cases heq
      refine ⟨c, [], rfl, List.forall_mem_nil _, .inr ?_⟩
      obtain ⟨l₁, l₂, hl, -⟩ := List.lookup_eq_some_iff.1 he
      rw [hl]
      exact List.mem_append_right _ List.mem_cons_self

/-! ### String literals and character constants -/

theorem unquoted_inside_digits {digits : List Char} (h : ∀ c ∈ digits, isOctalDigit c = true) :
    unquoted .inside (digits ++ rest) = unquoted .inside rest := by
  induction digits with
  | nil => rfl
  | cons c digits ih =>
    obtain ⟨hc, hdigits⟩ := List.forall_mem_cons.1 h
    have hquote : c ≠ '"' := by
      rintro rfl
      cases hc
    have hslash : c ≠ '\\' := by
      rintro rfl
      cases hc
    rw [List.cons_append, unquoted, if_neg hquote, if_neg hslash, ih hdigits]

/-- A string literal is passed over as a whole. -/
theorem unquoted_stringBody {body : List Char} (h : stringBody? cs = some (body, rest)) :
    unquoted .inside cs = unquoted .outside rest := by
  fun_induction stringBody? cs generalizing body with
  | case1 => cases h
  | case2 rest' =>
    cases h
    rw [unquoted, if_pos rfl]
  | case3 => cases h
  | case4 cs d rest' hescaped hlength hquote hfeed ih =>
    obtain ⟨⟨body', rest''⟩, hbody, heq⟩ := Option.map_eq_some_iff.1 h
    cases heq
    obtain ⟨c, digits, rfl, hdigits, -⟩ := escaped?_split hescaped
    rw [unquoted, if_neg (by decide), if_pos rfl, unquoted, unquoted_inside_digits hdigits, ih hbody]
  | case5 => cases h
  | case6 c cs hquote hfeed hslash ih =>
    obtain ⟨⟨body', rest'⟩, hbody, heq⟩ := Option.map_eq_some_iff.1 h
    cases heq
    rw [unquoted, if_neg hquote, if_neg hslash, ih hbody]

theorem isNeutral_apostrophe : IsNeutral ['\''] := isNeutral_cons (by decide) nofun

/-- A character constant is spelled with a quote or a division sign only if it is one. -/
theorem character?_split {d : Char} (h : character? cs = some (d, rest)) (hd : d ∉ '"' :: divisionSigns) :
    ∃ ds, cs = ds ++ rest ∧ IsNeutral ds := by
  cases cs with
  | nil => cases h
  | cons c cs =>
    simp only [character?] at h
    split at h
    · next e rest' hcontent =>
      cases h
      split at hcontent
      -- behind a backslash, the character that stands there decides
      · next hslash =>
        obtain ⟨b, digits, rfl, hdigits, hb⟩ := escaped?_split hcontent
        have hneutral : b ∉ '"' :: divisionSigns := by
          obtain hb | hb := hb
          · exact neutral_of_isOctalDigit hb
          · have hescapes : ∀ q ∈ simpleEscapes, q.2 ∉ '"' :: divisionSigns → q.1 ∉ '"' :: divisionSigns := by decide
            exact hescapes _ hb hd
        refine ⟨c :: b :: (digits ++ ['\'']), by simp, ?_⟩
        refine isNeutral_cons (by rw [hslash]; decide) (isNeutral_cons hneutral (.append ?_ isNeutral_apostrophe))
        exact fun e he => neutral_of_isOctalDigit (hdigits e he)
      · split at hcontent
        · cases hcontent
        · cases hcontent
          exact ⟨[d, '\''], rfl, isNeutral_cons hd isNeutral_apostrophe⟩
    · cases h

/-! ### Tokens and texts -/

theorem punctuator?_split {t : Token} (h : punctuator? cs = some (t, rest)) (ht : t.spellsDivision = false) :
    ∃ ds, cs = ds ++ rest ∧ IsNeutral ds := by
  obtain ⟨p, hp, heq⟩ := Option.map_eq_some_iff.1 h
  cases heq
  have hfound := List.find?_some hp
  have hpunctuators :
      (punctuators.all fun q => q.2.spellsDivision || q.1.toList.all (· ∉ '"' :: divisionSigns)) = true := by
    decide +kernel
  have hneutral : IsNeutral p.1.toList := by
    have hp := List.all_eq_true.1 hpunctuators p (List.mem_of_find?_eq_some hp)
    rw [ht, Bool.false_or, List.all_eq_true] at hp
    exact fun c hc => of_decide_eq_true (hp c hc)
  refine ⟨p.1.toList, ?_, hneutral⟩
  obtain ⟨tail, rfl⟩ := List.isPrefixOf_iff_prefix.1 hfound
  rw [List.drop_left]

/-- A token that is not spelled with division signs adds none outside of string literals. -/
theorem unquoted_token {t : Token} (h : token? cs = some (t, rest)) (ht : t.spellsDivision = false) :
    ∃ ds, unquoted .outside cs = ds ++ unquoted .outside rest ∧ ∀ c ∈ ds, c ∉ divisionSigns := by
  -- all tokens but string literals are passed on character by character
  have hneutral (hsplit : ∃ ds, cs = ds ++ rest ∧ IsNeutral ds) :
      ∃ ds, unquoted .outside cs = ds ++ unquoted .outside rest ∧ ∀ c ∈ ds, c ∉ divisionSigns := by
    obtain ⟨ds, rfl, hds⟩ := hsplit
    exact ⟨ds, unquoted_append hds, fun c hc hmem => hds c hc (List.mem_cons_of_mem _ hmem)⟩
  cases cs with
  | nil => cases h
  | cons c cs =>
    rw [token?] at h
    split at h
    · next hc =>
      obtain ⟨⟨body, rest'⟩, hbody, heq⟩ := Option.map_eq_some_iff.1 h
      cases heq
      refine ⟨[], ?_, List.forall_mem_nil _⟩
      rw [unquoted, if_pos hc, unquoted_stringBody hbody, List.nil_append]
    · split at h
      · next hc =>
        obtain ⟨⟨d, rest'⟩, hd, heq⟩ := Option.map_eq_some_iff.1 h
        cases heq
        obtain ⟨ds, rfl, hds⟩ := character?_split hd (of_decide_eq_false ht)
        exact hneutral ⟨c :: ds, rfl, isNeutral_cons (by rw [hc]; decide) hds⟩
      · split at h
        · next hc =>
          cases h
          refine hneutral ⟨c :: cs.takeWhile isWordChar, ?_, isNeutral_cons ?_ fun e he => ?_⟩
          · rw [List.cons_append, List.takeWhile_append_dropWhile]
          · exact neutral_of_isWordChar (isWordChar_of_isWordStart hc)
          · exact neutral_of_isWordChar (List.all_eq_true.1 List.all_takeWhile e he)
        · split at h
          · next hc =>
            obtain ⟨u, hu, heq⟩ := Option.map_eq_some_iff.1 h
            cases heq
            obtain ⟨hsplit, htail⟩ := numberTail_split c cs
            refine hneutral ⟨c :: (numberTail c cs).1, congrArg (c :: ·) hsplit, isNeutral_cons ?_ htail⟩
            simp only [Bool.or_eq_true, Bool.and_eq_true, beq_iff_eq] at hc
            obtain hdigit | ⟨rfl, -⟩ := hc
            · exact neutral_of_isWordChar (isWordChar_of_isDigit hdigit)
            · decide
          · exact hneutral (punctuator?_split h ht)

/-- **The characters of a text are known from its tokens.** Where no token is spelled with a division sign, there is none
outside of the string literals. -/
theorem forall_mem_unquoted {ts : List Token} (h : lex cs = some ts) (hts : ∀ t ∈ ts, t.spellsDivision = false) :
    ∀ c ∈ unquoted .outside cs, c ∉ divisionSigns := by
  fun_induction lex cs generalizing ts with
  | case1 => nofun
  | case2 c cs hc ih =>
    -- white space is passed on
    have hneutral : IsNeutral [c] := by
      refine isNeutral_cons (fun hmem => ?_) nofun
      simp only [divisionSigns, List.mem_cons, List.not_mem_nil, or_false] at hmem
      obtain rfl | rfl | rfl := hmem <;> cases hc
    have hspace : unquoted .outside (c :: cs) = [c] ++ unquoted .outside cs := unquoted_append hneutral
    rw [hspace]
    refine List.forall_mem_append.2 ⟨fun d hd hmem => ?_, ih h hts⟩
    exact hneutral d hd (List.mem_cons_of_mem _ hmem)
  | case3 => cases h
  | case4 c cs hc t rest htoken hlength ih =>
    obtain ⟨us, hus, rfl⟩ := Option.map_eq_some_iff.1 h
    obtain ⟨ht, hus'⟩ := List.forall_mem_cons.1 hts
    obtain ⟨ds, hunquoted, hds⟩ := unquoted_token htoken ht
    rw [hunquoted]
    exact List.forall_mem_append.2 ⟨hds, ih hus hus'⟩
  | case5 => cases h

end ImpC.C
