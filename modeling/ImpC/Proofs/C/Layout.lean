import ImpC.Proofs.C.Nesting
import ImpC.Proofs.C.Tokens

/-!
# Code on lines

The text of a function is laid out as its statements are nested (`Function.laidOut`): reading the lines, with no knowledge of
the code, finds the blocks of the statements again, each in the block of the statement around it (`Function.layout`).

For this the text of an expression must not get in the way. It is put on a line with something else, so it must not have a
line feed in it; and where it is the first on a line, it must not be taken for an indentation or for a closing brace
(`OnLine`). Names are identifiers where they come from the program, and the texts of literals are spelled out character by
character, so this holds of all expressions (`Expr.onLine`), whatever texts and numbers stand in them.
-/

namespace ImpC.C

/-- A text that a line of code can start with: it does not end the line, and it starts neither with a space nor with a
closing brace. -/
structure OnLine (text : String) : Prop where
  oneLine : '\n' ∉ text.toList
  first : ∃ c ∈ text.toList.head?, c ≠ ' ' ∧ c ≠ '\x7d'

variable {a b : String}

theorem OnLine.append (h : OnLine a) (hb : '\n' ∉ b.toList) : OnLine (a ++ b) where
  oneLine := by
    rw [String.toList_append, List.mem_append, not_or]
    exact ⟨h.oneLine, hb⟩
  first := by
    obtain ⟨c, hc, hne⟩ := h.first
    refine ⟨c, ?_, hne⟩
    rw [String.toList_append, List.head?_append, hc]
    rfl

/-- A fixed text is looked through. -/
theorem onLine_literal (a : String)
    (h : a.toList.all (· != '\n') = true ∧ (a.toList.head?.any fun c => c != ' ' && c != '\x7d') = true) :
    OnLine a where
  oneLine := fun hmem => absurd rfl (bne_iff_ne.1 (List.all_eq_true.1 h.1 _ hmem))
  first := by
    obtain ⟨c, hc, hne⟩ := (Option.any_eq_true _ _).1 h.2
    rw [Bool.and_eq_true, bne_iff_ne, bne_iff_ne] at hne
    exact ⟨c, hc, hne⟩

/-! ### Words, numbers and texts -/

theorem onLine_of_forall (hne : a.toList ≠ []) (h : ∀ c ∈ a.toList, c ≠ '\n' ∧ c ≠ ' ' ∧ c ≠ '\x7d') : OnLine a where
  oneLine := fun hmem => (h _ hmem).1 rfl
  first := by
    obtain ⟨c, cs, hcs⟩ := List.exists_cons_of_ne_nil hne
    rw [hcs] at h ⊢
    exact ⟨c, rfl, (h c List.mem_cons_self).2⟩

theorem ne_of_isWordChar {c : Char} (h : isWordChar c = true) : c ≠ '\n' ∧ c ≠ ' ' ∧ c ≠ '\x7d' := by
  refine ⟨?_, ?_, ?_⟩ <;> (rintro rfl; revert h; decide)

theorem onLine_of_isIdentifier (h : isIdentifier a = true) : OnLine a := by
  cases hcs : a.toList with
  | nil => rw [isIdentifier, hcs] at h; cases h
  | cons c cs =>
    rw [isIdentifier, hcs, isWord, Bool.and_eq_true, List.all_eq_true] at h
    refine onLine_of_forall (by rw [hcs]; exact List.cons_ne_nil _ _) ?_
    rw [hcs]
    exact List.forall_mem_cons.2
      ⟨ne_of_isWordChar (isWordChar_of_isWordStart h.1), fun d hd => ne_of_isWordChar (h.2 d hd)⟩

theorem Name.onLine {n : Name} (h : n.isValue = true) : OnLine n.toText :=
  onLine_of_isIdentifier (n.isIdentifier_of_isValue h)

/-- The characters of numbers, whether or not they have a fraction or an exponent. -/
def isNumberChar (c : Char) : Bool := isWordChar c || c == '.' || c == '-'

theorem onLine_of_isNumberChar (hne : a.toList ≠ []) (h : ∀ c ∈ a.toList, isNumberChar c = true) : OnLine a := by
  refine onLine_of_forall hne fun c hc => ?_
  have hchar := h c hc
  simp only [isNumberChar, Bool.or_eq_true, beq_iff_eq] at hchar
  rcases hchar with (hword | rfl) | rfl
  · exact ne_of_isWordChar hword
  · decide
  · decide

theorem isNumberChar_of_isDigit {c : Char} (h : c.isDigit = true) : isNumberChar c = true := by
  rw [isNumberChar, isWordChar_of_isDigit h]
  rfl

theorem isNumberChar_int (z : Int) : ∀ c ∈ (toString z).toList, isNumberChar c = true := by
  intro c hc
  obtain ⟨n, hz | hz⟩ := toList_toString_int z
  · rw [hz] at hc
    exact isNumberChar_of_isDigit (isDigit_of_mem_digits c hc)
  · rw [hz] at hc
    rcases List.mem_cons.1 hc with rfl | hc
    · rfl
    · exact isNumberChar_of_isDigit (isDigit_of_mem_digits c hc)

theorem onLine_int (z : Int) : OnLine (toString z) := by
  refine onLine_of_isNumberChar ?_ (isNumberChar_int z)
  obtain ⟨n, hz | hz⟩ := toList_toString_int z
  · rw [hz]
    exact Nat.toDigits_ne_nil
  · rw [hz]
    exact List.cons_ne_nil _ _

theorem onLine_nat (n : Nat) : OnLine (toString n) := onLine_int n

theorem isNumberChar_positional {ds : List Char} (h : ∀ c ∈ ds, isNumberChar c = true) (exponent : Int) :
    ∀ c ∈ Decimal.positional ds exponent, isNumberChar c = true := by
  have hpoint : isNumberChar '.' = true ∧ isNumberChar '0' = true := by decide
  have hzeros : ∀ n, ∀ c ∈ List.replicate n '0', isNumberChar c = true := fun n c hc =>
    isNumberChar_of_isDigit (isDigit_of_mem_zeros c hc)
  unfold Decimal.positional
  dsimp only
  split
  · simp only [List.forall_mem_append, List.forall_mem_cons]
    exact ⟨⟨h, hzeros _⟩, hpoint.1, hpoint.2, List.forall_mem_nil _⟩
  · split
    · simp only [List.forall_mem_append, List.forall_mem_cons]
      exact ⟨fun c hc => h c (List.mem_of_mem_take hc), hpoint.1, fun c hc => h c (List.mem_of_mem_drop hc)⟩
    · simp only [List.cons_append, List.forall_mem_append, List.forall_mem_cons]
      exact ⟨hpoint.2, hpoint.1, hzeros _, h⟩

theorem isNumberChar_scientific {ds : List Char} (h : ∀ c ∈ ds, isNumberChar c = true) (leading : Int) :
    ∀ c ∈ Decimal.scientific ds leading, isNumberChar c = true := by
  have hmarks : isNumberChar '.' = true ∧ isNumberChar 'e' = true := by decide
  have hdrop : ∀ c ∈ ds.drop 1, isNumberChar c = true := fun c hc => h c (List.mem_of_mem_drop hc)
  have hexponent := isNumberChar_int leading
  unfold Decimal.scientific
  simp only [List.forall_mem_append, List.forall_mem_cons]
  refine ⟨⟨fun c hc => h c (List.mem_of_mem_take hc), ?_⟩, hmarks.2, hexponent⟩
  split
  · exact List.forall_mem_nil _
  · exact List.forall_mem_cons.2 ⟨hmarks.1, hdrop⟩

/-- A decimal is a constant of C, so it is not empty. -/
theorem onLine_decimal (d : Decimal) : OnLine d.toText := by
  have hdigits : ∀ c ∈ Nat.toDigits 10 d.digits, isNumberChar c = true := fun c hc =>
    isNumberChar_of_isDigit (isDigit_of_mem_digits c hc)
  refine onLine_of_isNumberChar ?_ ?_
  · intro hempty
    have hlex := (floatingConstant_decimal d).lexes.lex_eq
    rw [hempty, lex] at hlex
    cases hlex
  · unfold Decimal.toText
    dsimp only
    split
    · rw [String.toList_ofList]
      exact isNumberChar_positional hdigits _
    · rw [String.toList_ofList]
      exact isNumberChar_scientific hdigits _

theorem onLine_longLiteral (v : Int64) : OnLine (longLiteral v) := by
  unfold longLiteral
  split
  · exact onLine_literal _ (by decide)
  · split
    · exact ((onLine_literal "(" (by decide)).append (onLine_int _).oneLine).append (by decide)
    · exact (onLine_int _).append (by decide)

theorem onLine_doubleLiteral (x : Binary64) : OnLine (doubleLiteral x) := by
  have hmagnitude : OnLine x.magnitudeText := by
    unfold Binary64.magnitudeText
    split
    · exact onLine_literal _ (by decide)
    · split
      · exact onLine_literal _ (by decide)
      · exact onLine_decimal x.shortest
  have htext : OnLine x.toText := by
    unfold Binary64.toText
    split
    · exact onLine_literal _ (by decide)
    · split
      · exact (onLine_literal "-" (by decide)).append hmagnitude.oneLine
      · exact hmagnitude
  unfold doubleLiteral
  split
  · exact onLine_literal _ (by decide)
  · split
    · split
      · exact onLine_literal _ (by decide)
      · exact onLine_literal _ (by decide)
    · split
      · exact ((onLine_literal "(" (by decide)).append htext.oneLine).append (by decide)
      · exact htext

/-- A line feed is spelled by a letter, and no other character is spelled by a line feed. -/
theorem not_mem_escapeChar (c : Char) : '\n' ∉ escapeChar c := by
  have hoctal : ∀ n, '\n' ≠ octalDigit n := by
    intro n h
    have hdigit := isOctalDigit_octalDigit n
    rw [← h] at hdigit
    revert hdigit
    decide
  by_cases hfeed : c = '\n'
  · rw [hfeed]
    decide
  -- each of the other forms is a backslash with what stands for the character, or the character itself
  · unfold escapeChar
    repeat' split
    all_goals simp [octal, hoctal, Ne.symm hfeed]

theorem onLine_textLiteral (s : String) : OnLine (textLiteral s) := by
  have hescape : '\n' ∉ (escape s).toList := by
    rw [escape, String.toList_ofList, List.mem_flatMap]
    rintro ⟨c, -, hc⟩
    exact not_mem_escapeChar c hc
  exact ((onLine_literal "\"" (by decide)).append hescape).append (by decide)

/-! ### Expressions -/

theorem not_mem_intercalate {texts : List String} (h : ∀ t ∈ texts, '\n' ∉ t.toList) :
    '\n' ∉ (", ".intercalate texts).toList := by
  induction texts with
  | nil => decide
  | cons t texts ih =>
    obtain ⟨ht, htexts⟩ := List.forall_mem_cons.1 h
    cases texts with
    | nil => simpa using ht
    | cons u texts =>
      rw [String.intercalate_cons_cons, String.toList_append, String.toList_append]
      simp only [List.mem_append, not_or]
      exact ⟨⟨ht, by decide⟩, ih htexts⟩

namespace Expr

/-- An operand stands in parentheses or is as it is. -/
theorem onLine_operand {e : Expr} (h : OnLine e.toText) : OnLine (e.parenthesize e.toText) := by
  unfold parenthesize
  split
  · exact ((onLine_literal "(" (by decide)).append h.oneLine).append (by decide)
  · exact h

mutual

/-- **The text of an expression stays on its line**, and does not start it with a space or with a closing brace. -/
theorem onLine : (e : Expr) → e.isNamed = true → OnLine e.toText
  | name n, h => Name.onLine h
  | long v, _ => onLine_longLiteral v
  | double x, _ => onLine_doubleLiteral x
  | text s, _ => onLine_textLiteral s
  | size n, _ => onLine_nat n
  | nul, _ => onLine_literal _ (by decide)
  | buffer n, _ => ((onLine_literal "(char[" (by decide)).append (onLine_nat n).oneLine).append (by decide)
  | binary op l r, h => by
    obtain ⟨hl, hr⟩ := Bool.and_eq_true_iff.1 h
    have hsymbol : '\n' ∉ op.symbol.toList := by cases op <;> decide
    exact (onLine_operand (onLine l hl)).append (by decide) |>.append hsymbol |>.append (by decide)
      |>.append (onLine_operand (onLine r hr)).oneLine
  | assign n e, h => by
    obtain ⟨hn, he⟩ := Bool.and_eq_true_iff.1 h
    exact (Name.onLine hn).append (by decide) |>.append (onLine e he).oneLine
  | call f args, h => by
    obtain ⟨hf, hargs⟩ := Bool.and_eq_true_iff.1 h
    have hcallee := onLine_of_isIdentifier (f.isIdentifier_of_isCallee hf)
    exact hcallee.append (by decide) |>.append (not_mem_intercalate (onLineAll args hargs)) |>.append (by decide)
  | first e, h => (onLine_operand (onLine e h)).append (by decide)
  | toLong e, h => (onLine_literal "(long long)" (by decide)).append (onLine_operand (onLine e h)).oneLine
  | sizeOf n, h => (onLine_literal "sizeof " (by decide)).append (Name.onLine h).oneLine
  | room n, h => by
    have hn := (Name.onLine h).oneLine
    exact (onLine_literal "sizeof " (by decide)).append hn |>.append (by decide) |>.append hn |>.append (by decide)
  | addressOf n, h => (onLine_literal "&" (by decide)).append (Name.onLine h).oneLine

theorem onLineAll : (es : List Expr) → areNamed es = true → ∀ t ∈ texts es, '\n' ∉ t.toList
  | [], _ => List.forall_mem_nil _
  | e :: es, h => by
    obtain ⟨he, hes⟩ := Bool.and_eq_true_iff.1 h
    exact List.forall_mem_cons.2 ⟨(onLine e he).oneLine, onLineAll es hes⟩

end

end Expr

/-! ### Lines in their blocks -/

theorem lineKind?_of_onLine (h : OnLine a) :
    lineKind? a.toList =
      if a.toList.getLast? = some '\x7b' then some .opening
      else if a.toList.getLast? = some ';' then some .plain else none := by
  obtain ⟨c, hc, -, hne⟩ := h.first
  have hbrace : a.toList.head? ≠ some '\x7d' := by
    rw [hc]
    exact fun heq => hne (Option.some.inj heq)
  rw [lineKind?, if_neg, if_neg, if_neg hbrace] <;>
    exact fun heq => hbrace (by rw [heq]; rfl)

theorem OnLine.not_space (h : OnLine a) : ∀ c ∈ a.toList.head?, c ≠ ' ' := by
  obtain ⟨c, hc, hne, -⟩ := h.first
  intro d hd
  rw [hc] at hd
  cases hd
  exact hne

theorem getLast?_append {c : Char} (h : b.toList.getLast? = some c) : (a ++ b).toList.getLast? = some c := by
  rw [String.toList_append, List.getLast?_append, h]
  rfl

/-- **Lines have a layout**: they are lines, and wherever `depth` blocks are open the reader finds these layouts in them,
behind what it has read, and has no block closed that was open before. -/
structure Lays (width depth : Nat) (ls : List Line) (layouts : List Layout) : Prop where
  oneLine : ∀ l ∈ ls, '\n' ∉ l.text.toList
  passes : ∀ blocks read, blocks.length = depth →
    Reader.Passes width depth ⟨blocks, read⟩ (rendered width ls) ⟨blocks, read ++ layouts⟩

section Lays

variable {width depth : Nat} {ls ls' : List Line} {layouts layouts' : List Layout}

theorem lays_nil : Lays width depth [] [] where
  oneLine := List.forall_mem_nil _
  passes := fun blocks read hdepth => by
    rw [List.append_nil]
    exact .nil (Nat.le_of_eq hdepth.symm)

theorem Lays.append (h : Lays width depth ls layouts) (h' : Lays width depth ls' layouts') :
    Lays width depth (ls ++ ls') (layouts ++ layouts') where
  oneLine := List.forall_mem_append.2 ⟨h.oneLine, h'.oneLine⟩
  passes := fun blocks read hdepth => by
    rw [rendered, List.map_append, ← List.append_assoc]
    exact (h.passes blocks read hdepth).append (h'.passes blocks (read ++ layouts) hdepth)

theorem OnLine.lays (h : OnLine a) (hend : a.toList.getLast? = some ';') :
    Lays width depth [⟨depth, a⟩] [.line a.toList] where
  oneLine := List.forall_mem_singleton.2 h.oneLine
  passes := fun blocks read hdepth => by
    have hkind : lineKind? a.toList = some .plain := by
      rw [lineKind?_of_onLine h, hend]
      rfl
    have hlow : depth ≤ blocks.length := Nat.le_of_eq hdepth.symm
    exact .line (Reader.readLine_indented h.not_space hkind hdepth) hlow hlow

variable {blocks : List OpenBlock} {read : List Layout}

/-- The line that opens a block. -/
theorem OnLine.passes_opening (h : OnLine a) (hend : a.toList.getLast? = some '\x7b') (hdepth : blocks.length = depth) :
    Reader.Passes width depth ⟨blocks, read⟩ (rendered width [⟨depth, a⟩]) ⟨⟨a.toList, none, read⟩ :: blocks, []⟩ := by
  have hkind : lineKind? a.toList = some .opening := by
    rw [lineKind?_of_onLine h, hend]
    rfl
  have hlow : depth ≤ blocks.length := Nat.le_of_eq hdepth.symm
  exact .line (Reader.readLine_indented h.not_space hkind hdepth) hlow (Nat.le_succ_of_le hlow)

/-- The line that closes a block. -/
theorem passes_closing (b : OpenBlock) (hdepth : blocks.length = depth) :
    Reader.Passes width depth ⟨b :: blocks, read⟩ (rendered width [⟨depth, "\x7d"⟩])
      ⟨blocks, b.before ++ [b.close read]⟩ := by
  have hspace : ∀ c ∈ "\x7d".toList.head?, c ≠ ' ' := by
    rintro c ⟨⟩
    decide
  have hkind : lineKind? "\x7d".toList = some .closing := rfl
  have hlow : depth ≤ blocks.length := Nat.le_of_eq hdepth.symm
  exact .line (Reader.readLine_indented hspace hkind hdepth) (Nat.le_succ_of_le hlow) hlow

/-- The line between the two halves of a block. -/
theorem passes_turning {opener : List Char} {before : List Layout} (hif : isIf opener = true)
    (hdepth : blocks.length = depth) :
    Reader.Passes width depth ⟨⟨opener, none, before⟩ :: blocks, read⟩ (rendered width [⟨depth, "\x7d else \x7b"⟩])
      ⟨⟨opener, some read, before⟩ :: blocks, []⟩ := by
  have hspace : ∀ c ∈ "\x7d else \x7b".toList.head?, c ≠ ' ' := by
    rintro c ⟨⟩
    decide
  have hline : Reader.readLine width ⟨⟨opener, none, before⟩ :: blocks, read⟩
      ((Line.mk depth "\x7d else \x7b").indented width).toList = some ⟨⟨opener, some read, before⟩ :: blocks, []⟩ := by
    have hlevel : Reader.level ⟨⟨opener, none, before⟩ :: blocks, read⟩ .turning = depth := hdepth
    rw [Reader.readLine_indented hspace rfl hlevel, Reader.readCode, if_pos hif]
  have hlow : depth ≤ (⟨opener, none, before⟩ :: blocks).length := Nat.le_succ_of_le (Nat.le_of_eq hdepth.symm)
  exact .line hline hlow hlow

theorem not_mem_closing : '\n' ∉ "\x7d".toList := by decide

theorem not_mem_turning : '\n' ∉ "\x7d else \x7b".toList := by decide

/-- A block stands in the blocks around it. -/
theorem Lays.block (hopen : OnLine a) (hend : a.toList.getLast? = some '\x7b') (h : Lays width (depth + 1) ls layouts) :
    Lays width depth (⟨depth, a⟩ :: ls ++ [⟨depth, "\x7d"⟩]) [.block a.toList layouts] where
  oneLine := List.forall_mem_append.2
    ⟨List.forall_mem_cons.2 ⟨hopen.oneLine, h.oneLine⟩, List.forall_mem_singleton.2 not_mem_closing⟩
  passes := fun blocks read hdepth => by
    rw [rendered, List.map_append]
    have hbody := h.passes (⟨a.toList, none, read⟩ :: blocks) [] (congrArg Nat.succ hdepth)
    exact ((hopen.passes_opening hend hdepth).append (hbody.anti (Nat.le_succ depth))).append (passes_closing _ hdepth)

/-- Both halves of a block stand in the blocks around it. -/
theorem Lays.choice (hopen : OnLine a) (hend : a.toList.getLast? = some '\x7b') (hif : isIf a.toList = true)
    (h : Lays width (depth + 1) ls layouts) (h' : Lays width (depth + 1) ls' layouts') :
    Lays width depth (⟨depth, a⟩ :: ls ++ ⟨depth, "\x7d else \x7b"⟩ :: ls' ++ [⟨depth, "\x7d"⟩])
      [.choice a.toList layouts layouts'] where
  oneLine := List.forall_mem_append.2 ⟨List.forall_mem_append.2
    ⟨List.forall_mem_cons.2 ⟨hopen.oneLine, h.oneLine⟩, List.forall_mem_cons.2 ⟨not_mem_turning, h'.oneLine⟩⟩,
    List.forall_mem_singleton.2 not_mem_closing⟩
  passes := fun blocks read hdepth => by
    rw [rendered, List.map_append, List.map_append]
    have hbody := h.passes (⟨a.toList, none, read⟩ :: blocks) [] (congrArg Nat.succ hdepth)
    have hturn : Reader.Passes width depth ⟨⟨a.toList, none, read⟩ :: blocks, layouts⟩
        (rendered width [⟨depth, "\x7d else \x7b"⟩]) ⟨⟨a.toList, some layouts, read⟩ :: blocks, []⟩ :=
      passes_turning hif hdepth
    have hother := h'.passes (⟨a.toList, some layouts, read⟩ :: blocks) [] (congrArg Nat.succ hdepth)
    exact (((hopen.passes_opening hend hdepth).append (hbody.anti (Nat.le_succ depth))).append
      (hturn.append (hother.anti (Nat.le_succ depth)))).append (passes_closing _ hdepth)

end Lays

/-! ### Statements -/

/-- The condition of a branch or a loop, in front of the block that it opens. -/
theorem onLine_condition {word : String} {e : Expr} (hword : OnLine word) (he : e.isNamed = true) :
    OnLine (word ++ e.toText ++ ") \x7b") :=
  (hword.append (e.onLine he).oneLine).append (by decide)

theorem isIf_condition (e : Expr) : isIf ("if (" ++ e.toText ++ ") \x7b").toList = true := by
  rw [isIf, Bool.and_eq_true, List.isPrefixOf_iff_prefix, List.isSuffixOf_iff_suffix, String.toList_append]
  refine ⟨?_, List.suffix_append _ _⟩
  rw [String.toList_append, List.append_assoc]
  exact List.prefix_append _ _

theorem onLine_declare (ty : DeclTy) (h : OnLine a) : OnLine (ty.declare a) := by
  cases ty with
  | int => exact (onLine_literal "int " (by decide)).append h.oneLine
  | long => exact (onLine_literal "long long " (by decide)).append h.oneLine
  | double => exact (onLine_literal "double " (by decide)).append h.oneLine
  | size => exact (onLine_literal "size_t " (by decide)).append h.oneLine
  | chars => exact (onLine_literal "char *" (by decide)).append h.oneLine
  | constChars => exact (onLine_literal "const char *" (by decide)).append h.oneLine

namespace Stmt

mutual

/-- The lines of a statement in the blocks that it opens. -/
def layout : Stmt → Layout
  | expr e => .line (e.toText ++ ";").toList
  | ret e => .line ("return " ++ e.toText ++ ";").toList
  | buffer n capacity => .line ("char " ++ n.toText ++ "[" ++ toString capacity ++ "];").toList
  | declare ty n none => .line (ty.declare n.toText ++ ";").toList
  | declare ty n (some e) => .line (ty.declare n.toText ++ " = " ++ e.toText ++ ";").toList
  | store n i e => .line (n.toText ++ "[" ++ i.toText ++ "] = " ++ e.toText ++ ";").toList
  | branch c a none => .block ("if (" ++ c.toText ++ ") \x7b").toList (layouts a)
  | branch c a (some b) => .choice ("if (" ++ c.toText ++ ") \x7b").toList (layouts a) (layouts b)
  | loop c b => .block ("while (" ++ c.toText ++ ") \x7b").toList (layouts b)
  | block b => .block "\x7b".toList (layouts b)

/-- The lines of statements in sequence. -/
def layouts : List Stmt → List Layout
  | [] => []
  | s :: ss => s.layout :: layouts ss

end

mutual

/-- **The lines of a statement have its layout.** -/
theorem lays (width depth : Nat) : (s : Stmt) → s.isNamed = true → Lays width depth (s.lines depth) [s.layout]
  | expr e, h => (e.onLine h).append (by decide) |>.lays (getLast?_append rfl)
  | ret e, h =>
    (onLine_literal "return " (by decide)).append (e.onLine h).oneLine |>.append (by decide)
      |>.lays (getLast?_append rfl)
  | buffer n capacity, h => by
    have hn := (Name.onLine h).oneLine
    have hname := (onLine_literal "char " (by decide)).append hn |>.append (b := "[") (by decide)
    exact hname.append (onLine_nat capacity).oneLine |>.append (by decide) |>.lays (getLast?_append rfl)
  | declare ty n none, h =>
    (onLine_declare ty (Name.onLine h)).append (by decide) |>.lays (getLast?_append rfl)
  | declare ty n (some e), h => by
    obtain ⟨hn, he⟩ := Bool.and_eq_true_iff.1 h
    have hdeclare := onLine_declare ty (Name.onLine hn)
    exact hdeclare.append (by decide) |>.append (e.onLine he).oneLine |>.append (by decide)
      |>.lays (getLast?_append rfl)
  | store n i e, h => by
    obtain ⟨hn, h⟩ := Bool.and_eq_true_iff.1 h
    obtain ⟨hi, he⟩ := Bool.and_eq_true_iff.1 h
    have hname := (Name.onLine hn).append (b := "[") (by decide)
    exact hname.append (i.onLine hi).oneLine |>.append (by decide) |>.append (e.onLine he).oneLine |>.append (by decide)
      |>.lays (getLast?_append rfl)
  | branch c a none, h => by
    obtain ⟨hc, ha⟩ := Bool.and_eq_true_iff.1 h
    exact .block (onLine_condition (onLine_literal "if (" (by decide)) hc) (getLast?_append rfl)
      (laysAll width (depth + 1) a ha)
  | branch c a (some b), h => by
    obtain ⟨hc, h⟩ := Bool.and_eq_true_iff.1 h
    obtain ⟨ha, hb⟩ := Bool.and_eq_true_iff.1 h
    exact .choice (onLine_condition (onLine_literal "if (" (by decide)) hc) (getLast?_append rfl) (isIf_condition c)
      (laysAll width (depth + 1) a ha) (laysAll width (depth + 1) b hb)
  | loop c b, h => by
    obtain ⟨hc, hb⟩ := Bool.and_eq_true_iff.1 h
    exact .block (onLine_condition (onLine_literal "while (" (by decide)) hc) (getLast?_append rfl)
      (laysAll width (depth + 1) b hb)
  | block b, h => .block (onLine_literal "\x7b" (by decide)) rfl (laysAll width (depth + 1) b h)

theorem laysAll (width depth : Nat) :
    (ss : List Stmt) → areNamed ss = true → Lays width depth (linesAll depth ss) (layouts ss)
  | [], _ => lays_nil
  | s :: ss, h => by
    obtain ⟨hs, hss⟩ := Bool.and_eq_true_iff.1 h
    exact (lays width depth s hs).append (laysAll width depth ss hss)

end

end Stmt

/-! ### Functions -/

/-- The text of lines falls into them at its line feeds. -/
theorem splitOn_linesText {width : Nat} {ls : List Line} (h : ∀ l ∈ ls, '\n' ∉ l.text.toList) :
    (linesText width ls).toList.splitOn '\n' = rendered width ls ++ [[]] := by
  induction ls with
  | nil => rfl
  | cons l ls ih =>
    obtain ⟨hl, hls⟩ := List.forall_mem_cons.1 h
    have hline : '\n' ∉ (l.indented width).toList := by
      rw [Line.indented, String.toList_append, String.toList_ofList, List.mem_append, List.mem_replicate]
      rintro (⟨-, hspace⟩ | htext)
      · exact absurd hspace (by decide)
      · exact hl htext
    have htext : (linesText width (l :: ls)).toList = (l.indented width).toList ++ '\n' :: (linesText width ls).toList := by
      simp [linesText, String.join_cons]
    rw [htext, List.splitOn_append_cons_self_of_not_mem hline, ih hls]
    rfl

/-- Lines that have a layout, in a block of their own. -/
theorem Lays.laidOut {width : Nat} {ls : List Line} {layouts : List Layout} (hopen : OnLine a)
    (hend : a.toList.getLast? = some '\x7b') (h : Lays width 1 ls layouts) :
    LaidOut width (linesText width (⟨0, a⟩ :: ls ++ [⟨0, "\x7d"⟩])) (.block a.toList layouts) := by
  have hblock : Lays width 0 (⟨0, a⟩ :: ls ++ [⟨0, "\x7d"⟩]) [.block a.toList layouts] := .block hopen hend h
  refine ⟨_, splitOn_linesText hblock.oneLine, (hblock.passes [] [] rfl).readLines_eq, ?_⟩
  -- the lines in front are the opening one and some lines inside, and reading those leaves the block open
  intro before after hsplit hbefore hafter
  obtain ⟨line, before, rfl⟩ := List.exists_cons_of_ne_nil hbefore
  obtain ⟨after, last, rfl⟩ := (List.eq_nil_or_concat after).resolve_left hafter
  simp only [rendered, List.cons_append, List.map_cons, List.map_append, List.concat_eq_append,
    ← List.append_assoc] at hsplit
  obtain ⟨hline, hrest⟩ := List.cons.inj hsplit
  obtain ⟨hinside, -⟩ := List.append_inj' hrest rfl
  have hpasses := h.passes [⟨a.toList, none, []⟩] [] rfl
  rw [rendered, ← hinside] at hpasses
  obtain ⟨r, hr, hlevel⟩ := hpasses.exists_of_append
  have hfirst : Reader.Passes width 0 .start (rendered width [⟨0, a⟩]) ⟨[⟨a.toList, none, []⟩], []⟩ :=
    hopen.passes_opening hend rfl
  refine ⟨r, ?_, List.length_pos_iff.1 hlevel⟩
  cases hfirst with
  | cons level first rest =>
    cases rest
    rw [hline, Reader.readLines_cons first, hr]

namespace Function

variable {f : Function}

/-- The lines of a function in the blocks of its body. -/
def layout (f : Function) : Layout := .block f.header.toList (Stmt.layouts f.body)

theorem onLine_header (h : f.isNamed = true) : OnLine f.header := by
  obtain ⟨hname, h⟩ := Bool.and_eq_true_iff.1 h
  have hparams : '\n' ∉ (paramsText f.params).toList := by
    have hparam : ∀ q ∈ f.params, '\n' ∉ q.toText.toList := fun q hq =>
      (onLine_declare q.ty (Name.onLine (List.all_eq_true.1 (Bool.and_eq_true_iff.1 h).1 q hq))).oneLine
    unfold paramsText
    split
    · decide
    · exact not_mem_intercalate (List.forall_mem_map.2 hparam)
  have hdeclare := onLine_declare f.returns (onLine_of_isIdentifier (f.name.isIdentifier_of_isFunction hname))
  have hstart : OnLine ((if f.isStatic then "static " else "") ++ f.returns.declare f.name.toText) := by
    cases f.isStatic with
    | false => rwa [if_neg (by decide), String.empty_append]
    | true => exact (onLine_literal "static " (by decide)).append hdeclare.oneLine
  exact hstart.append (by decide) |>.append hparams |>.append (by decide)

/-- **The text of a function is laid out as its statements are nested**, whatever the width of a level is. -/
theorem laidOut (width : Nat) (h : f.isNamed = true) : LaidOut width (f.toText width) f.layout := by
  have hend : f.header.toList.getLast? = some '\x7b' := getLast?_append rfl
  have hbody := Stmt.laysAll width 1 f.body (Bool.and_eq_true_iff.1 (Bool.and_eq_true_iff.1 h).2).2
  exact hbody.laidOut (onLine_header h) hend

end Function

end ImpC.C
