import ImpC.Proofs.C.Literal

/-!
# String literals are exact

What a compiler of C makes of a string literal. Trigraphs are replaced before anything else (`replaceTrigraphs`), and then
the literal is read from its opening quote up to the first quote that is not escaped (`stringLiteral?`). Read in this way,
the literal for a text gives the text back, and nothing of it is left over (`textLiteral_exact`).

Everything else that is said about the characters of a literal rests on the three forms in which a character is written
(`EscapeForm`): behind a backslash, by letters and digits behind a backslash, or as itself. A quote or a question mark is
never written as itself, so that what stands in front of it ends with the backslash of its own escape sequence
(`before_mark`). The backslashes in front of that one come in pairs.
-/

namespace ImpC.C

/-! ### Trigraphs -/

/-- The characters that stand for others behind two question marks. -/
def trigraphs : List (Char × Char) :=
  [('=', '#'), ('/', '\\'), ('\'', '^'), ('(', '['), (')', ']'), ('!', '|'), ('<', '\x7b'), ('>', '\x7d'), ('-', '~')]

/-- A text with its trigraphs replaced, from left to right. -/
def replaceTrigraphs : List Char → List Char
  | '?' :: '?' :: c :: rest =>
    match trigraphs.lookup c with
    | some d => d :: replaceTrigraphs rest
    | none => '?' :: replaceTrigraphs ('?' :: c :: rest)
  | c :: rest => c :: replaceTrigraphs rest
  | [] => []

example : replaceTrigraphs "???=".toList = "?#".toList := by decide +kernel

/-- A text without two question marks side by side has no trigraphs. -/
theorem replaceTrigraphs_eq_self {cs : List Char} (h : ¬ ['?', '?'] <:+: cs) : replaceTrigraphs cs = cs := by
  fun_induction replaceTrigraphs cs with
  | case1 c rest | case2 c rest => exact absurd ⟨[], c :: rest, rfl⟩ h
  | case3 c rest _ ih =>
    rw [ih fun hpart => h (hpart.trans (List.suffix_cons c rest).isInfix)]
  | case4 => rfl

/-- A string literal at the front of a text: the characters it stands for, and what is behind it. -/
def stringLiteral? : List Char → Option (List Char × List Char)
  | '"' :: cs => stringBody? cs
  | _ => none

/-! ### How a character is written -/

/-- The forms in which the character `c` is written in a literal. -/
inductive EscapeForm (c : Char) : List Char → Prop where
  /-- A character that means something in a literal, behind a backslash. -/
  | mark (hc : c = '"' ∨ c = '\\' ∨ c = '?') : EscapeForm c ['\\', c]
  /-- A control character, by a letter or by digits behind a backslash. -/
  | code {ds : List Char} (hne : ds ≠ []) (hds : ∀ d ∈ ds, d.isAlphanum = true) : EscapeForm c ('\\' :: ds)
  /-- Any other character, as itself. -/
  | itself (hquote : c ≠ '"') (hbackslash : c ≠ '\\') (hquestion : c ≠ '?') (hcontrol : isControl c = false) :
      EscapeForm c [c]

theorem isAlphanum_octalDigit (n : Nat) : (octalDigit n).isAlphanum = true := by
  have h : ∀ k < 8, (Char.ofNat (48 + k)).isAlphanum = true := by decide
  exact h (n % 8) (Nat.mod_lt n (by decide))

/-- **Every character is written in one of the forms.** -/
theorem escapeForm_escapeChar (c : Char) : EscapeForm c (escapeChar c) := by
  unfold escapeChar
  split
  · next hc =>
    subst hc
    exact .mark (.inl rfl)
  · next hquote =>
    split
    · next hc =>
      subst hc
      exact .mark (.inr (.inl rfl))
    · next hbackslash =>
      -- the letters of line feed, tab and carriage return
      split
      · exact .code (List.cons_ne_nil _ _) (List.forall_mem_singleton.2 rfl)
      · split
        · exact .code (List.cons_ne_nil _ _) (List.forall_mem_singleton.2 rfl)
        · split
          · exact .code (List.cons_ne_nil _ _) (List.forall_mem_singleton.2 rfl)
          · split
            · next hc =>
              subst hc
              exact .mark (.inr (.inr rfl))
            · next hquestion =>
              split
              · refine .code (List.cons_ne_nil _ _) ?_
                simp only [octal, List.forall_mem_cons]
                exact ⟨isAlphanum_octalDigit _, isAlphanum_octalDigit _, isAlphanum_octalDigit _, List.forall_mem_nil _⟩
              · next hcontrol => exact .itself hquote hbackslash hquestion (Bool.eq_false_iff.2 hcontrol)

/-- Nothing is written with control characters. -/
theorem EscapeForm.isControl {c d : Char} {cs : List Char} (h : EscapeForm c cs) (hd : d ∈ cs) : isControl d = false := by
  have halphanum : ∀ d : Char, d.isAlphanum = true → C.isControl d = false := by
    intro d hd
    rw [Char.isAlphanum, Bool.or_eq_true, isAlpha_iff_toNat] at hd
    simp only [C.isControl, Bool.or_eq_false_iff, decide_eq_false_iff_not]
    obtain hletter | hdigit := hd
    · omega
    · have hdigit : 48 ≤ d.toNat ∧ d.toNat ≤ 57 := Char.isDigit_iff_toNat.1 hdigit
      omega
  cases h with
  | mark hc =>
    obtain rfl | hd := List.mem_cons.1 hd
    · rfl
    · obtain rfl := List.mem_singleton.1 hd
      obtain rfl | rfl | rfl := hc <;> rfl
  | code hne hds =>
    obtain rfl | hd := List.mem_cons.1 hd
    · rfl
    · exact halphanum d (hds d hd)
  | itself _ _ _ hcontrol =>
    obtain rfl := List.mem_singleton.1 hd
    exact hcontrol

/-- A quote or a question mark is only written behind a backslash. -/
theorem EscapeForm.before_mark {c m : Char} {p q : List Char} (hm : m = '"' ∨ m = '?') (h : EscapeForm c (p ++ m :: q)) :
    p = ['\\'] := by
  have hbackslash : '\\' ≠ m := by
    rintro rfl
    revert hm
    decide
  have halphanum : m.isAlphanum = false := by
    obtain rfl | rfl := hm <;> rfl
  cases p with
  | nil =>
    -- the mark would be the first character of the form
    rw [List.nil_append] at h
    cases h with
    | mark | code => exact absurd rfl hbackslash
    | itself hquote _ hquestion => exact (hm.elim hquote hquestion).elim
  | cons x p =>
    rw [List.cons_append] at h
    generalize hrest : p ++ m :: q = rest at h
    have hmem : m ∈ rest := hrest ▸ List.mem_append_right p List.mem_cons_self
    cases h with
    | mark =>
      obtain ⟨rfl, -⟩ | ⟨-, h⟩ := List.append_eq_singleton_iff.1 hrest
      · rfl
      · cases h
    | code hne hds =>
      have hdigit := hds m hmem
      rw [halphanum] at hdigit
      cases hdigit
    | itself => exact absurd hmem List.not_mem_nil

/-- The backslashes at the end of a text. -/
def trailingBackslashes (cs : List Char) : Nat := (cs.reverse.takeWhile (· == '\\')).length

theorem trailingBackslashes_append_singleton (cs : List Char) (c : Char) :
    trailingBackslashes (cs ++ [c]) = if c = '\\' then trailingBackslashes cs + 1 else 0 := by
  unfold trailingBackslashes
  by_cases hc : c = '\\'
  · simp [hc]
  · simp [hc]

theorem trailingBackslashes_quote_cons (cs : List Char) : trailingBackslashes ('"' :: cs) = trailingBackslashes cs := by
  unfold trailingBackslashes
  rw [List.reverse_cons, List.takeWhile_append]
  split
  · next hall =>
    rw [hall]
    simp
  · rfl

theorem EscapeForm.trailingBackslashes_append {c : Char} {cs ds : List Char} (h : EscapeForm c ds)
    (hcs : trailingBackslashes cs % 2 = 0) : trailingBackslashes (cs ++ ds) % 2 = 0 := by
  cases h with
  | mark hc =>
    rw [List.append_cons, trailingBackslashes_append_singleton, trailingBackslashes_append_singleton]
    split
    · rw [if_pos rfl]
      omega
    · rfl
  | @code ds hne hds =>
    -- the sequence ends with a letter or a digit
    obtain rfl | ⟨ds, d, rfl⟩ := List.eq_nil_or_concat ds
    · exact absurd rfl hne
    · have hd : d ≠ '\\' := by
        rintro rfl
        exact absurd (hds '\\' (by simp)) (by decide)
      rw [List.concat_eq_append, ← List.cons_append, ← List.append_assoc, trailingBackslashes_append_singleton, if_neg hd]
  | itself _ hbackslash =>
    rw [trailingBackslashes_append_singleton, if_neg hbackslash]

/-- **Backslashes come in pairs.** What is written for a text never ends with half of an escape sequence. -/
theorem trailingBackslashes_flatMap (cs : List Char) : trailingBackslashes (cs.flatMap escapeChar) % 2 = 0 := by
  suffices h : ∀ before, trailingBackslashes before % 2 = 0 →
      trailingBackslashes (before ++ cs.flatMap escapeChar) % 2 = 0 from h [] rfl
  induction cs with
  | nil =>
    intro before hbefore
    rwa [List.flatMap_nil, List.append_nil]
  | cons c cs ih =>
    intro before hbefore
    rw [List.flatMap_cons, ← List.append_assoc]
    exact ih _ ((escapeForm_escapeChar c).trailingBackslashes_append hbefore)

/-- An element of a list that is put together from pieces lies in one of the pieces. -/
theorem flatMap_eq_append_cons {α β : Type} {f : α → List β} {xs : List α} {before after : List β} {b : β}
    (h : xs.flatMap f = before ++ b :: after) :
    ∃ (ys : List α) (x : α) (p q : List β), before = ys.flatMap f ++ p ∧ f x = p ++ b :: q := by
  induction xs generalizing before with
  | nil => simp at h
  | cons x xs ih =>
    rw [List.flatMap_cons] at h
    -- either the first piece ends in front of the element, or the element lies in it
    obtain ⟨r, hbefore, hr⟩ | ⟨r, hx, hr⟩ := List.append_eq_append_iff.1 h
    · obtain ⟨ys, y, p, q, rfl, hy⟩ := ih hr
      exact ⟨x :: ys, y, p, q, by rw [hbefore, List.flatMap_cons, List.append_assoc], hy⟩
    · cases r with
      | nil =>
        obtain ⟨ys, y, p, q, hp, hy⟩ := @ih [] hr.symm
        refine ⟨x :: ys, y, p, q, ?_, hy⟩
        rw [List.flatMap_cons, List.append_assoc, ← hp, hx]
        simp
      | cons c r =>
        obtain ⟨rfl, -⟩ := List.cons.inj hr
        exact ⟨[], x, before, r, rfl, hx⟩

/-- **What stands in front of a quote or a question mark** is written for a text, and then its own backslash. -/
theorem before_mark {s before after : List Char} {m : Char} (hm : m = '"' ∨ m = '?')
    (h : s.flatMap escapeChar = before ++ m :: after) : ∃ t : List Char, before = t.flatMap escapeChar ++ ['\\'] := by
  obtain ⟨t, c, p, q, rfl, hc⟩ := flatMap_eq_append_cons h
  have hform := escapeForm_escapeChar c
  rw [hc] at hform
  exact ⟨t, by rw [hform.before_mark hm]⟩

/-! ### Literals of texts -/

theorem toList_textLiteral (s : String) : (textLiteral s).toList = '"' :: (s.toList.flatMap escapeChar ++ ['"']) := by
  simp [textLiteral, escape]

theorem isControl_of_mem_textLiteral {s : String} {c : Char} (h : c ∈ (textLiteral s).toList) : isControl c = false := by
  rw [toList_textLiteral, List.mem_cons, List.mem_append, List.mem_singleton] at h
  obtain rfl | h | rfl := h
  · rfl
  · obtain ⟨d, -, hd⟩ := List.mem_flatMap.1 h
    exact (escapeForm_escapeChar d).isControl hd
  · rfl

/-- A quote or a question mark inside of a literal is behind its own backslash. -/
theorem before_mark_textLiteral {s : String} {before after : List Char} {m : Char} (hm : m = '"' ∨ m = '?')
    (h : (textLiteral s).toList = before ++ m :: after) (hbefore : before ≠ []) (hafter : after ≠ []) :
    ∃ t : List Char, before = '"' :: (t.flatMap escapeChar ++ ['\\']) := by
  rw [toList_textLiteral] at h
  cases before with
  | nil => exact absurd rfl hbefore
  | cons c before =>
    rw [List.cons_append] at h
    obtain ⟨rfl, hinner⟩ := List.cons.inj h
    obtain rfl | ⟨after, d, rfl⟩ := List.eq_nil_or_concat after
    · exact absurd rfl hafter
    -- what is between the outer quotes
    · rw [List.concat_eq_append, ← List.cons_append, ← List.append_assoc] at hinner
      obtain ⟨t, rfl⟩ := before_mark hm (List.append_inj_left' hinner rfl)
      exact ⟨t, rfl⟩

/-- Every quote between the first and the last character is behind an odd number of backslashes. -/
def InnerQuotesEscaped (cs : List Char) : Prop :=
  ∀ before after, cs = before ++ '"' :: after → before ≠ [] → after ≠ [] → trailingBackslashes before % 2 = 1

theorem innerQuotesEscaped_textLiteral (s : String) : InnerQuotesEscaped (textLiteral s).toList := by
  intro before after h hbefore hafter
  obtain ⟨t, rfl⟩ := before_mark_textLiteral (.inl rfl) h hbefore hafter
  have hpairs := trailingBackslashes_flatMap t
  rw [trailingBackslashes_quote_cons, trailingBackslashes_append_singleton, if_pos rfl]
  omega

/-- No trigraph can arise, since every question mark is behind a backslash. -/
theorem not_questionMarks_infix_textLiteral (s : String) : ¬ ['?', '?'] <:+: (textLiteral s).toList := by
  rintro ⟨before, after, h⟩
  have hsplit : (textLiteral s).toList = (before ++ ['?']) ++ '?' :: after := by
    rw [← h]
    simp
  have hafter : after ≠ [] := by
    -- a literal ends with a quote
    rintro rfl
    rw [toList_textLiteral, ← List.cons_append] at hsplit
    cases List.append_inj_right' hsplit rfl
  obtain ⟨t, ht⟩ := before_mark_textLiteral (.inr rfl) hsplit (by simp) hafter
  rw [← List.cons_append] at ht
  cases List.append_inj_right' ht rfl

/-- **A string literal stands for exactly its text.** Read by the rules of C, trigraphs first, it gives the text, and nothing
of it is left over. It has no line feed and no other control character in it, every quote inside of it is escaped, and no two
question marks stand side by side. In particular no other text has the same literal. -/
theorem textLiteral_exact (s : String) :
    stringLiteral? (replaceTrigraphs (textLiteral s).toList) = some (s.toList, []) ∧
      (∀ c ∈ (textLiteral s).toList, isControl c = false) ∧ InnerQuotesEscaped (textLiteral s).toList ∧
      ¬ ['?', '?'] <:+: (textLiteral s).toList ∧ ∀ t, textLiteral t = textLiteral s → t = s := by
  have hread : ∀ t, stringLiteral? (replaceTrigraphs (textLiteral t).toList) = some (t.toList, []) := by
    intro t
    rw [replaceTrigraphs_eq_self (not_questionMarks_infix_textLiteral t), toList_textLiteral]
    exact stringBody?_escape_append t.toList []
  refine ⟨hread s, fun c => isControl_of_mem_textLiteral, innerQuotesEscaped_textLiteral s,
    not_questionMarks_infix_textLiteral s, fun t ht => ?_⟩
  have hsame := hread t
  rw [ht, hread s] at hsame
  exact String.toList_inj.1 (Prod.mk.inj (Option.some.inj hsame)).1.symm

end ImpC.C
