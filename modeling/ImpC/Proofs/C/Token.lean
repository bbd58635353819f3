import ImpC.BinOp
import ImpC.C.Literal

/-!
# The tokens of C

`lex` divides a text into the tokens of C, each as long as it can be: words, numbers, string literals, character
constants and punctuators. Literals are read to what they denote. A decimal integer constant becomes its value, and a
string literal the characters between its quotes with the escape sequences replaced; a floating constant stays as it is
written. Punctuators that the expressions of an emitted program do not use are tokens all the same (`Token.other`), so
`lex` finds a `--` where two signs meet, and the opening of a comment where two slashes do.

Texts are put together from pieces, and a piece has to be divided in the same way wherever it stands. `Lexes cs ts` says
that `cs` gives the tokens `ts` in front of anything that starts with a delimiter, that is, a blank or a character that is a
token of its own and never part of a longer one. Pieces that meet at a delimiter can be joined (`Lexes.append`).
-/

namespace ImpC.C

/-- A token. -/
inductive Token where
  /-- An identifier or a keyword. -/
  | word (spelling : String)
  /-- A decimal integer constant, with or without the suffix `LL`. -/
  | int (value : Nat) (isLong : Bool)
  /-- A decimal floating constant. -/
  | float (spelling : String)
  /-- A string literal, by the text it denotes. -/
  | text (value : String)
  /-- A character constant. -/
  | char (value : Char)
  /-- A binary operator; the minus sign is this one in front of an operand, too. -/
  | op (op : BinOp)
  | assign
  | comma
  | openParen
  | closeParen
  | openBracket
  | closeBracket
  | openBrace
  | closeBrace
  /-- Any other punctuator. -/
  | other (spelling : String)
  deriving DecidableEq, Repr, Inhabited

/-! ### Words -/

/-- The characters a word may start with. -/
def isWordStart (c : Char) : Bool := c.isAlpha || c == '_'

/-- The characters of words. -/
def isWordChar (c : Char) : Bool := c.isAlphanum || c == '_'

/-- Whether the characters form a word. -/
def isWord : List Char → Bool
  | [] => false
  | c :: cs => isWordStart c && cs.all isWordChar

/-- Whether the name is formed like an identifier of C. -/
def isIdentifier (name : String) : Bool := isWord name.toList

/-! ### Numbers -/

def isSign (c : Char) : Bool := c == '+' || c == '-'

def isExponentMark (c : Char) : Bool := c == 'e' || c == 'E' || c == 'p' || c == 'P'

/-- What belongs to a number whose last character so far is `last`: word characters, points, and a sign behind the mark of
an exponent. -/
def numberTail (last : Char) : List Char → List Char × List Char
  | [] => ([], [])
  | c :: cs =>
    if isWordChar c || c == '.' || (isExponentMark last && isSign c) then
      let (tail, rest) := numberTail c cs
      (c :: tail, rest)
    else ([], c :: cs)

/-- A decimal integer constant. A leading zero would make it octal. -/
def integer? (cs : List Char) : Option Token :=
  let digits := cs.takeWhile Char.isDigit
  -- zero itself is an octal constant too, of the same value
  if digits = [] ∨ (digits.head? = some '0' ∧ digits ≠ ['0']) then none
  else match cs.dropWhile Char.isDigit with
    | [] => some (.int (Nat.ofDigitChars 10 digits 0) false)
    | ['L', 'L'] => some (.int (Nat.ofDigitChars 10 digits 0) true)
    | _ => none

/-- The exponent of a decimal floating constant: the mark, a sign or none, and digits. -/
def isExponent : List Char → Bool
  | [] => false
  | c :: cs =>
    (c == 'e' || c == 'E') &&
      match cs with
      | [] => false
      | d :: ds => if isSign d then !ds.isEmpty && ds.all Char.isDigit else (d :: ds).all Char.isDigit

/-- Whether the characters form a decimal floating constant: digits with a point or an exponent or both. -/
def isFloating (cs : List Char) : Bool :=
  let whole := cs.takeWhile Char.isDigit
  match cs.dropWhile Char.isDigit with
  | [] => false
  | c :: rest =>
    if c = '.' then
      let fraction := rest.takeWhile Char.isDigit
      let exponent := rest.dropWhile Char.isDigit
      !(whole.isEmpty && fraction.isEmpty) && (exponent.isEmpty || isExponent exponent)
    else !whole.isEmpty && isExponent (c :: rest)

/-- The constant that a number is. -/
def number? (cs : List Char) : Option Token :=
  match integer? cs with
  | some t => some t
  | none => if isFloating cs then some (.float (.ofList cs)) else none

/-! ### Characters and strings -/

def isOctalDigit (c : Char) : Bool := '0' ≤ c && c ≤ '7'

/-- The octal digits at the front, `bound` of them at the most. -/
def octalDigits : Nat → List Char → List Char × List Char
  | 0, cs => ([], cs)
  | _ + 1, [] => ([], [])
  | bound + 1, c :: cs =>
    if isOctalDigit c then
      let (digits, rest) := octalDigits bound cs
      (c :: digits, rest)
    else ([], c :: cs)

/-- The escape sequences of one character. -/
def simpleEscapes : List (Char × Char) :=
  [('\'', '\''), ('"', '"'), ('?', '?'), ('\\', '\\'), ('a', '\x07'), ('b', '\x08'), ('f', '\x0c'), ('n', '\n'),
    ('r', '\r'), ('t', '\t'), ('v', '\x0b')]

/-- The character that an escape sequence denotes, read behind its backslash. An octal sequence has up to three digits. -/
def escaped? : List Char → Option (Char × List Char)
  | [] => none
  | c :: cs =>
    if isOctalDigit c then
      -- digits that follow the third one are characters of their own
      let (digits, rest) := octalDigits 2 cs
      let code := Nat.ofDigitChars 8 (c :: digits) 0
      if code < 128 then some (.ofNat code, rest) else none
    else (simpleEscapes.lookup c).map (·, cs)

theorem length_octalDigits_le (bound : Nat) (cs : List Char) : (octalDigits bound cs).2.length ≤ cs.length := by
  fun_induction octalDigits bound cs with
  | case1 cs => exact Nat.le_refl _
  | case2 => exact Nat.le_refl _
  | case3 bound c cs hc digits rest heq ih =>
    rw [heq] at ih
    exact Nat.le_succ_of_le ih
  | case4 => exact Nat.le_refl _

theorem length_lt_of_escaped? {cs rest : List Char} {c : Char} (h : escaped? cs = some (c, rest)) :
    rest.length < cs.length := by
  cases cs with
  | nil => cases h
  | cons d ds =>
    rw [escaped?] at h
    split at h
    · dsimp only at h
      split at h
      · cases h
        exact Nat.lt_succ_of_le (length_octalDigits_le 2 ds)
      · cases h
    · obtain ⟨e, -, he⟩ := Option.map_eq_some_iff.1 h
      cases he
      exact Nat.lt_succ_self _

/-- The characters of a string literal up to its closing quote, read behind the opening one. -/
def stringBody? (cs : List Char) : Option (List Char × List Char) :=
  match cs with
  | [] => none
  | c :: rest =>
    if c = '"' then some ([], rest)
    -- a literal ends on the line it starts on
    else if c = '\n' then none
    else if c = '\\' then
      match h : escaped? rest with
      | some (d, rest') =>
        have := length_lt_of_escaped? h
        (stringBody? rest').map fun (body, rest) => (d :: body, rest)
      | none => none
    else (stringBody? rest).map fun (body, rest) => (c :: body, rest)
termination_by cs.length

/-- A character constant, read behind its opening quote. -/
def character? : List Char → Option (Char × List Char)
  | [] => none
  | c :: cs =>
    let content := if c = '\\' then escaped? cs else if c = '\'' ∨ c = '\n' then none else some (c, cs)
    match content with
    | some (d, '\'' :: rest) => some (d, rest)
    | _ => none

/-! ### Punctuators -/

/-- The punctuators, and the openings of comments, each behind those it is the beginning of. -/
def punctuators : List (String × Token) :=
  -- of three and four characters
  [("%:%:", .other "%:%:"), ("...", .other "..."), ("<<=", .other "<<="), (">>=", .other ">>="),
    -- of two
    ("->", .other "->"), ("++", .other "++"), ("--", .other "--"), ("<<", .other "<<"), (">>", .other ">>"),
    ("<=", .op .le), (">=", .op .ge), ("==", .op .eq), ("!=", .op .ne), ("&&", .other "&&"), ("||", .other "||"),
    ("*=", .other "*="), ("/=", .other "/="), ("%=", .other "%="), ("+=", .other "+="), ("-=", .other "-="),
    ("&=", .other "&="), ("^=", .other "^="), ("|=", .other "|="), ("##", .other "##"), ("<:", .other "<:"),
    (":>", .other ":>"), ("<%", .other "<%"), ("%>", .other "%>"), ("%:", .other "%:"), ("//", .other "//"),
    ("/*", .other "/*"),
    -- of one
    ("(", .openParen), (")", .closeParen), ("[", .openBracket), ("]", .closeBracket), ("\x7b", .openBrace),
    ("\x7d", .closeBrace), (",", .comma), ("=", .assign), ("+", .op .add), ("-", .op .sub), ("*", .op .mul),
    ("/", .op .div), ("%", .op .mod), ("<", .op .lt), (">", .op .gt), (".", .other "."), ("&", .other "&"),
    ("~", .other "~"), ("!", .other "!"), ("^", .other "^"), ("|", .other "|"), ("?", .other "?"),
    (":", .other ":"), (";", .other ";"), ("#", .other "#")]

/-- The longest punctuator at the front. -/
def punctuator? (cs : List Char) : Option (Token × List Char) :=
  (punctuators.find? fun p => p.1.toList.isPrefixOf cs).map fun p => (p.2, cs.drop p.1.toList.length)

/-! ### Texts -/

/-- The token at the front of a text that does not start with a blank, and what is behind it. -/
def token? : List Char → Option (Token × List Char)
  | [] => none
  | c :: cs =>
    if c = '"' then (stringBody? cs).map fun (body, rest) => (.text (.ofList body), rest)
    else if c = '\'' then (character? cs).map fun (d, rest) => (.char d, rest)
    else if isWordStart c then some (.word (.ofList (c :: cs.takeWhile isWordChar)), cs.dropWhile isWordChar)
    -- a point in front of a digit starts a number, and any other point is a punctuator
    else if c.isDigit || (c == '.' && cs.head?.any Char.isDigit) then
      let (tail, rest) := numberTail c cs
      (number? (c :: tail)).map (·, rest)
    else punctuator? (c :: cs)

/-- The white space between tokens. -/
def isSpace (c : Char) : Bool := c == ' ' || c == '\t' || c == '\n' || c == '\x0b' || c == '\x0c'

/-- The tokens of a text. -/
def lex (cs : List Char) : Option (List Token) :=
  match cs with
  | [] => some []
  | c :: cs =>
    if isSpace c then lex cs
    -- no token is empty; the comparison says so to the recursion
    else match token? (c :: cs) with
      | none => none
      | some (t, rest) => if rest.length ≤ cs.length then (lex rest).map (t :: ·) else none
termination_by cs.length

theorem lex_space (cs : List Char) : lex (' ' :: cs) = lex cs := by
  rw [lex, if_pos (by decide)]

theorem lex_cons {c : Char} {cs rest : List Char} {t : Token} (hc : isSpace c = false)
    (h : token? (c :: cs) = some (t, rest)) (hrest : rest.length ≤ cs.length) :
    lex (c :: cs) = (lex rest).map (t :: ·) := by
  rw [lex, if_neg (by rw [hc]; decide), h]
  exact if_pos hrest

/-! ### Punctuators of emitted expressions -/

/-- The punctuators of a single character that no longer one starts with. -/
def brackets : List (Char × Token) :=
  [('(', .openParen), (')', .closeParen), ('[', .openBracket), (']', .closeBracket), ('\x7b', .openBrace),
    ('\x7d', .closeBrace), (',', .comma), (';', .other ";")]

theorem token?_bracket {c : Char} {t : Token} (h : (c, t) ∈ brackets) (cs : List Char) :
    isSpace c = false ∧ token? (c :: cs) = some (t, cs) := by
  simp only [brackets, List.mem_cons, Prod.mk.injEq, List.not_mem_nil, or_false] at h
  obtain ⟨rfl, rfl⟩ | ⟨rfl, rfl⟩ | ⟨rfl, rfl⟩ | ⟨rfl, rfl⟩ | ⟨rfl, rfl⟩ | ⟨rfl, rfl⟩ | ⟨rfl, rfl⟩ | ⟨rfl, rfl⟩ := h
  all_goals exact ⟨rfl, rfl⟩

theorem token?_symbol (op : BinOp) (cs : List Char) :
    token? (op.symbol.toList ++ ' ' :: cs) = some (.op op, ' ' :: cs) := by
  cases op <;> rfl

theorem token?_assign (cs : List Char) : token? ('=' :: ' ' :: cs) = some (.assign, ' ' :: cs) := rfl

/-- The signs that stand in front of a word or a number. -/
def signs : List (Char × Token) := [('-', .op .sub), ('*', .op .mul), ('&', .other "&")]

/-- A sign in front of a word or a number is a token of its own. -/
theorem token?_sign {s c : Char} {t : Token} (hs : (s, t) ∈ signs) (hc : isWordChar c = true) (cs : List Char) :
    isSpace s = false ∧ token? (s :: c :: cs) = some (t, c :: cs) := by
  -- the longer punctuators that start with a sign go on with none of these characters
  have hne : ∀ d, isWordChar d = false → (d == c) = false := by
    intro d hd
    rw [beq_eq_false_iff_ne]
    rintro rfl
    rw [hc] at hd
    cases hd
  simp only [signs, List.mem_cons, Prod.mk.injEq, List.not_mem_nil, or_false] at hs
  obtain ⟨rfl, rfl⟩ | ⟨rfl, rfl⟩ | ⟨rfl, rfl⟩ := hs
  all_goals
    refine ⟨rfl, ?_⟩
    change punctuator? _ = _
    rw [punctuator?]
    simp [punctuators, hne '>' rfl, hne '-' rfl, hne '=' rfl, hne '&' rfl, List.isPrefixOf]

/-! ### Pieces of texts -/

/-- The blank, the end of a line, and the characters that are always tokens of their own. -/
def delimiters : List Char := [' ', '\n', '(', ')', ',', '[', ']', '\x7b', '\x7d', ';']

/-- The text is empty or starts with a delimiter. -/
def Delimited (cs : List Char) : Prop := ∀ c ∈ cs.head?, c ∈ delimiters

/-- In front of a delimiter, the characters are divided into the tokens. -/
def Lexes (cs : List Char) (ts : List Token) : Prop :=
  ∀ rest, Delimited rest → lex (cs ++ rest) = (lex rest).map (ts ++ ·)

theorem delimited_nil : Delimited [] := nofun

theorem delimited_cons {c : Char} {cs : List Char} (hc : c ∈ delimiters) : Delimited (c :: cs) := by
  intro d hd
  cases hd
  exact hc

/-- A delimiter ends a word and a number. -/
theorem Delimited.not_isWordChar {c : Char} (hc : c ∈ delimiters) :
    isWordChar c = false ∧ (c == '.') = false ∧ isSign c = false := by
  simp only [delimiters, List.mem_cons, List.not_mem_nil, or_false] at hc
  obtain rfl | rfl | rfl | rfl | rfl | rfl | rfl | rfl | rfl | rfl := hc
  all_goals exact ⟨rfl, rfl, rfl⟩

theorem Delimited.takeWhile {cs : List Char} (h : Delimited cs) : cs.takeWhile isWordChar = [] := by
  cases cs with
  | nil => rfl
  | cons c cs => rw [List.takeWhile_cons_of_neg (by rw [(not_isWordChar (h c rfl)).1]; decide)]

theorem Delimited.dropWhile {cs : List Char} (h : Delimited cs) : cs.dropWhile isWordChar = cs := by
  cases cs with
  | nil => rfl
  | cons c cs => rw [List.dropWhile_cons_of_neg (by rw [(not_isWordChar (h c rfl)).1]; decide)]

theorem Delimited.numberTail {cs : List Char} (h : Delimited cs) (last : Char) : numberTail last cs = ([], cs) := by
  cases cs with
  | nil => rfl
  | cons c cs =>
    obtain ⟨hword, hpoint, hsign⟩ := not_isWordChar (h c rfl)
    rw [C.numberTail, hword, hpoint, hsign, Bool.and_false]
    rfl

theorem lexes_nil : Lexes [] [] := by
  intro rest _
  rw [List.nil_append]
  cases lex rest <;> rfl

/-- A text that consists of a piece. -/
theorem Lexes.lex_eq {cs : List Char} {ts : List Token} (h : Lexes cs ts) : lex cs = some ts := by
  have hnil := h [] delimited_nil
  rw [List.append_nil] at hnil
  rw [hnil, lex, Option.map_some, List.append_nil]

/-- Pieces can be joined where a delimiter stands. -/
theorem Lexes.append {a b : List Char} {c : Char} {ts us : List Token} (ha : Lexes a ts) (hc : c ∈ delimiters)
    (hb : Lexes (c :: b) us) : Lexes (a ++ c :: b) (ts ++ us) := by
  intro rest hrest
  -- for the first piece, what follows is the second piece together with what follows that
  rw [List.append_assoc, List.cons_append, ha _ (delimited_cons hc), ← List.cons_append, hb rest hrest, Option.map_map]
  congr 1
  funext vs
  exact (List.append_assoc ts us vs).symm

theorem Lexes.space {cs : List Char} {ts : List Token} (h : Lexes cs ts) : Lexes (' ' :: cs) ts := by
  intro rest hrest
  rw [List.cons_append, lex_space, h rest hrest]

/-- A piece behind a token that ends where the piece begins. -/
theorem Lexes.cons {t : Token} {c : Char} {cs cs' : List Char} {ts : List Token} (h : Lexes cs' ts)
    (hc : isSpace c = false) (ht : ∀ rest, token? (c :: (cs ++ (cs' ++ rest))) = some (t, cs' ++ rest)) :
    Lexes (c :: (cs ++ cs')) (t :: ts) := by
  intro rest hrest
  have hlength : (cs' ++ rest).length ≤ (cs ++ (cs' ++ rest)).length := by simp
  rw [List.cons_append, List.append_assoc, lex_cons hc (ht rest) hlength, h rest hrest, Option.map_map]
  rfl

/-- A piece behind a token of one character. -/
theorem Lexes.single {t : Token} {c : Char} {cs : List Char} {ts : List Token} (h : Lexes cs ts)
    (hc : isSpace c = false) (ht : ∀ rest, token? (c :: (cs ++ rest)) = some (t, cs ++ rest)) :
    Lexes (c :: cs) (t :: ts) := by
  rw [← List.nil_append cs]
  exact h.cons hc ht

theorem Lexes.bracket {c : Char} {t : Token} {cs : List Char} {ts : List Token} (h : Lexes cs ts)
    (hc : (c, t) ∈ brackets) : Lexes (c :: cs) (t :: ts) :=
  h.single (token?_bracket hc []).1 fun rest => (token?_bracket hc (cs ++ rest)).2

/-- A binary operator stands between blanks. -/
theorem Lexes.operator {cs : List Char} {ts : List Token} (h : Lexes cs ts) (op : BinOp) :
    Lexes (' ' :: (op.symbol.toList ++ ' ' :: cs)) (.op op :: ts) := by
  refine Lexes.space fun rest hrest => ?_
  -- the symbol is taken apart into its first character and the others, which is how `lex` goes about it
  obtain ⟨c, symbol, hsymbol, hc⟩ : ∃ c symbol, op.symbol.toList = c :: symbol ∧ isSpace c = false := by
    cases op <;> exact ⟨_, _, rfl, rfl⟩
  have htoken := token?_symbol op
  rw [hsymbol] at htoken ⊢
  exact h.space.cons hc (fun rest => htoken (cs ++ rest)) rest hrest

theorem Lexes.assign {cs : List Char} {ts : List Token} (h : Lexes cs ts) :
    Lexes (' ' :: '=' :: ' ' :: cs) (.assign :: ts) :=
  .space (h.space.single rfl fun rest => token?_assign (cs ++ rest))

/-- A sign stands in front of a word or a number. -/
theorem Lexes.sign {s c : Char} {t : Token} {cs : List Char} {ts : List Token} (h : Lexes (c :: cs) ts)
    (hs : (s, t) ∈ signs) (hc : isWordChar c = true) : Lexes (s :: c :: cs) (t :: ts) :=
  h.single (token?_sign hs hc []).1 fun rest => (token?_sign hs hc (cs ++ rest)).2

-- in front of another sign the token would be a different one
example : lex "x--1LL".toList = some [.word "x", .other "--", .int 1 true] := by decide +kernel

end ImpC.C
