import ImpC.C.Function
import ImpC.Proofs.C.Grammar
import ImpC.Proofs.C.Literal

/-!
# Texts and their tokens, form by form

How the forms in which emitted code is written are divided into tokens. There is one lemma for each form, which gives the
tokens of the whole from the tokens of its parts: operands in parentheses, operations, calls and casts, declarations, and
the lines of statements.

Inside a line a piece is divided in front of a delimiter (`Lexes`). A line ends with a line feed, and then it does not
matter any more what follows: `LexesLines` says that characters are divided in front of anything, and lines are put together
without further conditions (`LexesLines.append`).
-/

namespace ImpC.C

variable {a b : String} {ts us : List Token}

/-! ### Expressions -/

theorem lexes_size (n : Nat) : Lexes (Nat.toDigits 10 n) [.int n false] := by
  have hlexes : Lexes (Nat.toDigits 10 n ++ []) [.int n false] := lexes_integer rfl
  rwa [List.append_nil] at hlexes

theorem Lexes.parens (h : Lexes a.toList ts) : Lexes ("(" ++ a ++ ")").toList (.openParen :: (ts ++ [.closeParen])) := by
  have hclose : Lexes [')'] [.closeParen] := lexes_nil.bracket (by decide)
  have htext : ("(" ++ a ++ ")").toList = '(' :: (a.toList ++ [')']) := by simp
  rw [htext]
  exact (h.append (by decide) hclose).bracket (by decide)

/-- A sign in front of a name or a number. -/
theorem Lexes.signed {s : Char} {t : Token} (h : Lexes a.toList ts) (hs : (s, t) ∈ signs)
    (hfirst : ∃ c ∈ a.toList.head?, isWordChar c = true) : Lexes (s :: a.toList) (t :: ts) := by
  obtain ⟨c, hc, hword⟩ := hfirst
  -- the sign joins with what follows unless that is a word or a number, so the first character matters
  obtain ⟨cs, ha⟩ := List.head?_eq_some_iff.1 hc
  rw [ha] at h ⊢
  exact h.sign hs hword

theorem Lexes.operation (op : BinOp) (hl : Lexes a.toList ts) (hr : Lexes b.toList us) :
    Lexes (a ++ " " ++ op.symbol ++ " " ++ b).toList (ts ++ .op op :: us) := by
  have htext : (a ++ " " ++ op.symbol ++ " " ++ b).toList =
      a.toList ++ ' ' :: (op.symbol.toList ++ ' ' :: b.toList) := by simp
  rw [htext]
  exact hl.append (by decide) (hr.operator op)

theorem Lexes.assignment (ht : Lexes a.toList ts) (hv : Lexes b.toList us) :
    Lexes (a ++ " = " ++ b).toList (ts ++ .assign :: us) := by
  have htext : (a ++ " = " ++ b).toList = a.toList ++ ' ' :: '=' :: ' ' :: b.toList := by simp
  rw [htext]
  exact ht.append (by decide) hv.assign

/-- An element of an array. -/
theorem Lexes.index (ha : Lexes a.toList ts) (hb : Lexes b.toList us) :
    Lexes (a ++ "[" ++ b ++ "]").toList (ts ++ .openBracket :: (us ++ [.closeBracket])) := by
  have hclose : Lexes [']'] [.closeBracket] := lexes_nil.bracket (by decide)
  have htext : (a ++ "[" ++ b ++ "]").toList = a.toList ++ '[' :: (b.toList ++ [']']) := by simp
  rw [htext]
  exact ha.append (by decide) ((hb.append (by decide) hclose).bracket (by decide))

theorem Lexes.first (h : Lexes a.toList ts) :
    Lexes (a ++ "[0]").toList (ts ++ .openBracket :: ([.int 0 false] ++ [.closeBracket])) := by
  have hzero : Lexes "0".toList [.int 0 false] := lexes_size 0
  have hindex := h.index hzero
  rwa [String.append_assoc, String.append_assoc] at hindex

theorem Lexes.toLong (h : Lexes a.toList ts) :
    Lexes ("(long long)" ++ a).toList (.openParen :: .word "long" :: .word "long" :: .closeParen :: ts) := by
  have hlong : Lexes ['l', 'o', 'n', 'g'] [.word "long"] := lexes_word (w := "long") (by decide)
  have hclose : Lexes (')' :: a.toList) (.closeParen :: ts) := h.bracket (by decide)
  have hsecond : Lexes (' ' :: (['l', 'o', 'n', 'g'] ++ ')' :: a.toList)) (.word "long" :: .closeParen :: ts) :=
    (hlong.append (by decide) hclose).space
  have htext : ("(long long)" ++ a).toList =
      '(' :: (['l', 'o', 'n', 'g'] ++ ' ' :: (['l', 'o', 'n', 'g'] ++ ')' :: a.toList)) := by simp
  rw [htext]
  exact (hlong.append (by decide) hsecond).bracket (by decide)

/-- A buffer is a compound literal. -/
theorem lexes_buffer (n : Nat) : Lexes ("(char[" ++ toString n ++ "])\x7b0\x7d").toList
    [.openParen, .word "char", .openBracket, .int n false, .closeBracket, .closeParen, .openBrace, .int 0 false,
      .closeBrace] := by
  have hchar : Lexes ['c', 'h', 'a', 'r'] [.word "char"] := lexes_word (w := "char") (by decide)
  have hzero : Lexes ['0'] [.int 0 false] := lexes_size 0
  have hclose : Lexes ['\x7d'] [.closeBrace] := lexes_nil.bracket (by decide)
  have hbraces : Lexes ('\x7b' :: (['0'] ++ ['\x7d'])) [.openBrace, .int 0 false, .closeBrace] :=
    (hzero.append (by decide) hclose).bracket (by decide)
  have hend : Lexes (']' :: ')' :: '\x7b' :: (['0'] ++ ['\x7d']))
      [.closeBracket, .closeParen, .openBrace, .int 0 false, .closeBrace] :=
    (hbraces.bracket (by decide)).bracket (by decide)
  have hsize : Lexes ('[' :: (Nat.toDigits 10 n ++ ']' :: ')' :: '\x7b' :: (['0'] ++ ['\x7d'])))
      [.openBracket, .int n false, .closeBracket, .closeParen, .openBrace, .int 0 false, .closeBrace] :=
    ((lexes_size n).append (by decide) hend).bracket (by decide)
  have htext : ("(char[" ++ toString n ++ "])\x7b0\x7d").toList =
      '(' :: (['c', 'h', 'a', 'r'] ++ '[' :: (Nat.toDigits 10 n ++ ']' :: ')' :: '\x7b' :: (['0'] ++ ['\x7d']))) := by
    simp
  rw [htext]
  exact (hchar.append (by decide) hsize).bracket (by decide)

/-- Pieces with commas between them, each given by its text and its tokens. -/
theorem lexes_separated {pieces : List (String × List Token)} (hne : pieces ≠ [])
    (h : ∀ x ∈ pieces, Lexes x.1.toList x.2) :
    Lexes (", ".intercalate (pieces.map Prod.fst)).toList (separated (pieces.map Prod.snd)) := by
  induction pieces with
  | nil => exact absurd rfl hne
  | cons x pieces ih =>
    obtain ⟨hx, h⟩ := List.forall_mem_cons.1 h
    cases pieces with
    | nil => simpa [separated] using hx
    | cons y pieces =>
      have hcomma := (ih (by simp) h).space.bracket (c := ',') (t := .comma) (by decide)
      have htext : (", ".intercalate ((x :: y :: pieces).map Prod.fst)).toList =
          x.1.toList ++ ',' :: ' ' :: (", ".intercalate ((y :: pieces).map Prod.fst)).toList := by
        simp
      rw [htext]
      exact hx.append (by decide) hcomma

/-- Something in front of pieces in parentheses, as in a call. -/
theorem Lexes.call (h : Lexes a.toList ts) {pieces : List (String × List Token)}
    (hpieces : ∀ x ∈ pieces, Lexes x.1.toList x.2) :
    Lexes (a ++ "(" ++ ", ".intercalate (pieces.map Prod.fst) ++ ")").toList
      (ts ++ .openParen :: (separated (pieces.map Prod.snd) ++ [.closeParen])) := by
  have htext : (a ++ "(" ++ ", ".intercalate (pieces.map Prod.fst) ++ ")").toList =
      a.toList ++ '(' :: ((", ".intercalate (pieces.map Prod.fst)).toList ++ [')']) := by
    simp
  rw [htext]
  have hclose : Lexes [')'] [.closeParen] := lexes_nil.bracket (by decide)
  cases pieces with
  | nil => exact h.append (by decide) (hclose.bracket (by decide))
  | cons x pieces =>
    have harguments := lexes_separated (by simp) hpieces
    exact h.append (by decide) ((harguments.append (by decide) hclose).bracket (by decide))

/-! ### Declarations -/

/-- A word and a blank in front of a piece. -/
theorem Lexes.word {w : String} (h : Lexes a.toList ts) (hw : isIdentifier w = true) :
    Lexes (w ++ " " ++ a).toList (.word w :: ts) := by
  have htext : (w ++ " " ++ a).toList = w.toList ++ ' ' :: a.toList := by simp
  rw [htext]
  exact (lexes_word hw).append (by decide) h.space

/-- The tokens of a type in a declaration. -/
def DeclTy.tokens : DeclTy → List Token
  | int => [.word "int"]
  | long => [.word "long", .word "long"]
  | double => [.word "double"]
  | size => [.word "size_t"]
  | chars => [.word "char", .op .mul]
  | constChars => [.word "const", .word "char", .op .mul]

theorem head?_of_isIdentifier (h : isIdentifier a = true) : ∃ c ∈ a.toList.head?, isWordChar c = true := by
  rw [isIdentifier] at h
  cases ha : a.toList with
  | nil => rw [ha] at h; cases h
  | cons c cs =>
    rw [ha, isWord, Bool.and_eq_true] at h
    exact ⟨c, rfl, isWordChar_of_isWordStart h.1⟩

theorem lexes_declare (ty : DeclTy) (h : isIdentifier a = true) :
    Lexes (ty.declare a).toList (ty.tokens ++ [.word a]) := by
  have hname : Lexes a.toList [.word a] := lexes_word h
  -- the star of a pointer stands right in front of the name
  have hpointer : Lexes ("*" ++ a).toList [.op .mul, .word a] := by
    rw [String.toList_append]
    exact hname.signed (by decide) (head?_of_isIdentifier h)
  have hchars : Lexes ("char *" ++ a).toList [.word "char", .op .mul, .word a] := by
    have hword := hpointer.word (w := "char") (by decide)
    rwa [← String.append_assoc] at hword
  cases ty with
  | int => exact hname.word (w := "int") (by decide)
  | long =>
    have hword := (hname.word (w := "long") (by decide)).word (w := "long") (by decide)
    rwa [← String.append_assoc, ← String.append_assoc] at hword
  | double => exact hname.word (w := "double") (by decide)
  | size => exact hname.word (w := "size_t") (by decide)
  | chars => exact hchars
  | constChars =>
    have hword := hchars.word (w := "const") (by decide)
    rwa [← String.append_assoc] at hword

/-! ### Lines -/

theorem Lexes.semicolon (h : Lexes a.toList ts) : Lexes (a ++ ";").toList (ts ++ [.other ";"]) := by
  have hend : Lexes [';'] [.other ";"] := lexes_nil.bracket (by decide)
  rw [String.toList_append]
  exact h.append (by decide) hend

/-- A line that opens a scope. -/
theorem Lexes.brace (h : Lexes a.toList ts) : Lexes (a ++ " \x7b").toList (ts ++ [.openBrace]) := by
  have hopen : Lexes ['\x7b'] [.openBrace] := lexes_nil.bracket (by decide)
  rw [String.toList_append]
  exact h.append (by decide) hopen.space

/-- Whatever follows, the characters are divided into the tokens. -/
def LexesLines (cs : List Char) (ts : List Token) : Prop := ∀ rest, lex (cs ++ rest) = (lex rest).map (ts ++ ·)

theorem lexesLines_nil : LexesLines [] [] := by
  intro rest
  rw [List.nil_append]
  cases lex rest <;> rfl

theorem LexesLines.append {cs ds : List Char} (h : LexesLines cs ts) (h' : LexesLines ds us) :
    LexesLines (cs ++ ds) (ts ++ us) := by
  intro rest
  rw [List.append_assoc, h, h', Option.map_map]
  congr 1
  funext vs
  exact (List.append_assoc ts us vs).symm

theorem LexesLines.lex_eq {cs : List Char} (h : LexesLines cs ts) : lex cs = some ts := by
  have hnil := h []
  rwa [List.append_nil, lex, Option.map_some, List.append_nil] at hnil

theorem lex_replicate (n : Nat) (cs : List Char) : lex (List.replicate n ' ' ++ cs) = lex cs := by
  induction n with
  | zero => rfl
  | succ n ih => rw [List.replicate_succ, List.cons_append, lex_space, ih]

/-- **A line is divided as its text is**, however far it is indented and whatever stands on the next line. -/
theorem Lexes.indented {l : Line} (h : Lexes l.text.toList ts) (width : Nat) :
    LexesLines (l.indented width ++ "\n").toList ts := by
  intro rest
  have htext : (l.indented width ++ "\n").toList ++ rest =
      List.replicate (l.depth * width) ' ' ++ (l.text.toList ++ '\n' :: rest) := by
    simp [Line.indented]
  have hfeed : lex ('\n' :: rest) = lex rest := by rw [lex, if_pos (by decide)]
  rw [htext, lex_replicate, h _ (delimited_cons (by decide)), hfeed]

end ImpC.C
