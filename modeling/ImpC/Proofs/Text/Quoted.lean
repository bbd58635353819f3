import ImpC.Text.Quoted

/-!
# Quoted text can be read back

A quoted text tells where it ends and what it stands for, whatever is written behind it (`Text.quoted_append_inj`). This
rests on the three forms in which a character is written between quotes (`Text.QuoteForm`): by a letter behind a backslash,
by its code point, or as itself. No form is the beginning of another (`Text.quoteChar_append_inj`), and none begins with the
quote that ends the text.

The quoted text stands on one line: it has no line feed in it (`Text.newline_notMem_quoted`).
-/

namespace ImpC.Text

/-! ### Where a text ends -/

/-- What stands in front of the first occurrence of a character, and behind it. -/
theorem eq_of_append_cons_eq {α : Type} {p p' r r' : List α} {x : α} (hp : x ∉ p) (hp' : x ∉ p')
    (h : p ++ x :: r = p' ++ x :: r') : p = p' ∧ r = r' := by
  induction p generalizing p' with
  | nil =>
    cases p' with
    | nil => exact ⟨rfl, (List.cons.inj h).2⟩
    | cons y p' => exact absurd ((List.cons.inj h).1 ▸ List.mem_cons_self) hp'
  | cons y p ih =>
    cases p' with
    | nil => exact absurd ((List.cons.inj h).1 ▸ List.mem_cons_self) hp
    | cons z p' =>
      obtain ⟨rfl, htail⟩ := List.cons.inj h
      obtain ⟨rfl, rfl⟩ := ih (List.not_mem_of_not_mem_cons hp) (List.not_mem_of_not_mem_cons hp') htail
      exact ⟨rfl, rfl⟩

/-! ### Hexadecimal numbers -/

theorem digitChar_inj {k l : Nat} (hk : k < 16) (hl : l < 16) (h : k.digitChar = l.digitChar) : k = l := by
  have hall : ∀ k < 16, ∀ l < 16, k.digitChar = l.digitChar → k = l := by decide
  exact hall k hk l hl h

/-- The last digit of a number, and the digits in front of it. -/
theorem toDigits_sixteen (n : Nat) :
    Nat.toDigits 16 n = (if n < 16 then [] else Nat.toDigits 16 (n / 16)) ++ [(n % 16).digitChar] := by
  rw [Nat.toDigits_eq_if (by decide)]
  split
  · next hn => rw [Nat.mod_eq_of_lt hn, List.nil_append]
  · rfl

theorem toDigits_sixteen_inj {m n : Nat} (h : Nat.toDigits 16 m = Nat.toDigits 16 n) : m = n := by
  induction m using Nat.strongRecOn generalizing n with
  | ind m ih =>
    rw [toDigits_sixteen m, toDigits_sixteen n] at h
    obtain ⟨hinit, hlast⟩ := List.append_inj' h rfl
    have hmod : m % 16 = n % 16 :=
      digitChar_inj (Nat.mod_lt m (by decide)) (Nat.mod_lt n (by decide)) (List.cons.inj hlast).1
    -- both numbers have one digit only, or both have others in front of it
    by_cases hm : m < 16
    · rw [if_pos hm] at hinit
      by_cases hn : n < 16
      · omega
      · rw [if_neg hn] at hinit
        exact absurd hinit.symm Nat.toDigits_ne_nil
    · rw [if_neg hm] at hinit
      by_cases hn : n < 16
      · rw [if_pos hn] at hinit
        exact absurd hinit Nat.toDigits_ne_nil
      · rw [if_neg hn] at hinit
        have hdiv : m / 16 = n / 16 := ih (m / 16) (by omega) hinit
        omega

theorem exists_digitChar_of_mem {n : Nat} {c : Char} (h : c ∈ Nat.toDigits 16 n) : ∃ k, c = Nat.digitChar k := by
  induction n using Nat.strongRecOn with
  | ind n ih =>
    rw [toDigits_sixteen] at h
    obtain h | h := List.mem_append.1 h
    · split at h
      · exact absurd h List.not_mem_nil
      · exact ih (n / 16) (by omega) h
    · exact ⟨_, List.mem_singleton.1 h⟩

/-! ### How a character is written -/

/-- The characters that are written by a letter behind a backslash, with their letters. -/
def letters : List (Char × Char) := [('\x00', '0'), ('\t', 't'), ('\r', 'r'), ('\n', 'n'), ('"', '"'), ('\\', '\\')]

/-- The forms in which the character `c` is written between quotes. -/
inductive QuoteForm (c : Char) : List Char → Prop where
  /-- By a letter behind a backslash. -/
  | letter {l : Char} (h : (c, l) ∈ letters) : QuoteForm c ['\\', l]
  /-- By its code point. -/
  | code : QuoteForm c (codePoint c)
  /-- As itself. -/
  | itself (hquote : c ≠ '"') (hbackslash : c ≠ '\\') (hnewline : c ≠ '\n') : QuoteForm c [c]

/-- **Every character is written in one of the forms.** -/
theorem quoteForm_quoteChar (c : Char) : QuoteForm c (quoteChar c) := by
  by_cases hletter : ∃ l, (c, l) ∈ letters
  · obtain ⟨l, hl⟩ := hletter
    have hform : quoteChar c = ['\\', l] := by
      simp only [letters, List.mem_cons, Prod.mk.injEq, List.not_mem_nil, or_false] at hl
      obtain ⟨rfl, rfl⟩ | ⟨rfl, rfl⟩ | ⟨rfl, rfl⟩ | ⟨rfl, rfl⟩ | ⟨rfl, rfl⟩ | ⟨rfl, rfl⟩ := hl <;> rfl
    rw [hform]
    exact .letter hl
  · have hne : ∀ d l, (d, l) ∈ letters → c ≠ d := by
      rintro d l hl rfl
      exact hletter ⟨l, hl⟩
    unfold quoteChar
    rw [if_neg (hne '\x00' '0' (by decide)), if_neg (hne '\t' 't' (by decide)), if_neg (hne '\r' 'r' (by decide)),
      if_neg (hne '\n' 'n' (by decide)), if_neg (hne '"' '"' (by decide)), if_neg (hne '\\' '\\' (by decide))]
    split
    · exact .code
    · exact .itself (hne '"' '"' (by decide)) (hne '\\' '\\' (by decide)) (hne '\n' 'n' (by decide))

/-- A letter stands for one character only. -/
theorem eq_of_mem_letters {c d l : Char} (hc : (c, l) ∈ letters) (hd : (d, l) ∈ letters) : c = d := by
  have hall : ∀ p ∈ letters, ∀ q ∈ letters, p.2 = q.2 → p.1 = q.1 := by decide
  exact hall _ hc _ hd rfl

/-- The letter of a code point is no other's. -/
theorem notMem_letters (c : Char) : (c, 'u') ∉ letters := by
  have hall : ∀ p ∈ letters, p.2 ≠ 'u' := by decide
  intro h
  exact hall _ h rfl

theorem codePoint_append_inj {c d : Char} {r r' : List Char} (h : codePoint c ++ r = codePoint d ++ r') :
    c = d ∧ r = r' := by
  have hbrace : ∀ e : Char, '\x7d' ∉ Nat.toDigits 16 e.toNat := by
    intro e he
    obtain ⟨k, hk⟩ := exists_digitChar_of_mem he
    exact Nat.digitChar_ne '\x7d' rfl hk.symm
  have hdigits : Nat.toDigits 16 c.toNat ++ '\x7d' :: r = Nat.toDigits 16 d.toNat ++ '\x7d' :: r' := by
    simpa [codePoint] using h
  obtain ⟨hnumber, hrest⟩ := eq_of_append_cons_eq (hbrace c) (hbrace d) hdigits
  exact ⟨Char.toNat_inj.1 (toDigits_sixteen_inj hnumber), hrest⟩

/-- **No form is the beginning of another.** -/
theorem quoteChar_append_inj {c d : Char} {r r' : List Char} (h : quoteChar c ++ r = quoteChar d ++ r') :
    c = d ∧ r = r' := by
  have hc := quoteForm_quoteChar c
  have hd := quoteForm_quoteChar d
  generalize quoteChar c = cs at h hc
  generalize quoteChar d = ds at h hd
  cases hc with
  | letter hl =>
    cases hd with
    | letter hl' =>
      obtain ⟨rfl, hrest⟩ := List.cons.inj (List.cons.inj h).2
      exact ⟨eq_of_mem_letters hl hl', hrest⟩
    | code =>
      obtain ⟨rfl, -⟩ := List.cons.inj (List.cons.inj h).2
      exact absurd hl (notMem_letters c)
    | itself _ hbackslash => exact absurd (List.cons.inj h).1.symm hbackslash
  | code =>
    cases hd with
    | letter hl =>
      obtain ⟨rfl, -⟩ := List.cons.inj (List.cons.inj h).2
      exact absurd hl (notMem_letters d)
    | code => exact codePoint_append_inj h
    | itself _ hbackslash => exact absurd (List.cons.inj h).1.symm hbackslash
  | itself _ hbackslash =>
    cases hd with
    | letter | code => exact absurd (List.cons.inj h).1 hbackslash
    | itself => exact List.cons.inj h

/-- A character is not written so that it could be taken for the end of the text. -/
theorem QuoteForm.head_ne_quote {c : Char} {cs r r' : List Char} (h : QuoteForm c cs) : cs ++ r ≠ '"' :: r' := by
  intro heq
  cases h with
  | letter | code => exact absurd (List.cons.inj heq).1 (by decide)
  | itself hquote => exact absurd (List.cons.inj heq).1 hquote

theorem newline_notMem_quoteChar (c : Char) : '\n' ∉ quoteChar c := by
  have hform := quoteForm_quoteChar c
  generalize quoteChar c = cs at hform
  intro h
  cases hform with
  | letter hl =>
    have hall : ∀ p ∈ letters, '\n' ∉ ['\\', p.2] := by decide
    exact hall _ hl h
  | code =>
    have hdigit : '\n' ∈ Nat.toDigits 16 c.toNat := by simpa [codePoint] using h
    obtain ⟨k, hk⟩ := exists_digitChar_of_mem hdigit
    exact Nat.digitChar_ne '\n' rfl hk.symm
  | itself _ _ hnewline => exact hnewline (List.mem_singleton.1 h).symm

/-! ### Texts -/

/-- What is written for the characters of a text ends at the quote behind it. -/
theorem flatMap_quoteChar_append_inj {cs ds r r' : List Char}
    (h : cs.flatMap quoteChar ++ '"' :: r = ds.flatMap quoteChar ++ '"' :: r') : cs = ds ∧ r = r' := by
  induction cs generalizing ds with
  | nil =>
    cases ds with
    | nil => exact ⟨rfl, (List.cons.inj h).2⟩
    | cons d ds =>
      rw [List.flatMap_cons, List.append_assoc] at h
      exact absurd h.symm (quoteForm_quoteChar d).head_ne_quote
  | cons c cs ih =>
    cases ds with
    | nil =>
      rw [List.flatMap_cons, List.append_assoc] at h
      exact absurd h (quoteForm_quoteChar c).head_ne_quote
    | cons d ds =>
      rw [List.flatMap_cons, List.flatMap_cons, List.append_assoc, List.append_assoc] at h
      obtain ⟨rfl, htail⟩ := quoteChar_append_inj h
      obtain ⟨rfl, rfl⟩ := ih htail
      exact ⟨rfl, rfl⟩

/-- **A quoted text can be read back**, whatever is written behind it. -/
theorem quoted_append_inj {s t : String} {r r' : List Char} (h : (quoted s).toList ++ r = (quoted t).toList ++ r') :
    s = t ∧ r = r' := by
  have hbody : s.toList.flatMap quoteChar ++ '"' :: r = t.toList.flatMap quoteChar ++ '"' :: r' := by
    simpa [quoted] using h
  obtain ⟨htext, hrest⟩ := flatMap_quoteChar_append_inj hbody
  exact ⟨String.toList_inj.1 htext, hrest⟩

theorem newline_notMem_quoted (s : String) : '\n' ∉ (quoted s).toList := by
  intro h
  have hbody : '\n' ∈ s.toList.flatMap quoteChar := by simpa [quoted] using h
  obtain ⟨c, -, hc⟩ := List.mem_flatMap.1 hbody
  exact newline_notMem_quoteChar c hc

end ImpC.Text
