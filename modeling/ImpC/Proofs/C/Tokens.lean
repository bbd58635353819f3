import ImpC.Proofs.C.Expr
import ImpC.Proofs.C.Names
import ImpC.Proofs.C.Spelling

/-!
# The tokens of code

`Expr.tokens`, `Stmt.tokens` and `Function.tokens` give the tokens of a piece of code directly, without its text. The text
is divided into these tokens (`Expr.lexes`, `Stmt.lexesLines`, `Function.lexesLines`), whatever the width of a level is,
as long as the names in the code stand where they belong (`Function.isNamed`). With that, whatever is read off the tokens
of a text is a property of lists that are put together as the code is.
-/

namespace ImpC.C

/-! ### Names -/

namespace Name

variable {n : Name}

theorem isIdentifier_of_isValue (h : n.isValue = true) : isIdentifier n.toText = true := by
  cases n with
  | var x => exact (isIdentifier_var h).1
  | argument x => exact isIdentifier_append (by decide) h
  | result | scratch => decide
  | function | helper | library | inner | main => cases h

theorem isIdentifier_of_isFunction (h : n.isFunction = true) : isIdentifier n.toText = true := by
  cases n with
  | function f => exact (isIdentifier_function h).1
  | main => decide
  | var | argument | helper | library | result | scratch | inner => cases h

theorem isIdentifier_of_isCallee (h : n.isCallee = true) : isIdentifier n.toText = true := by
  cases n with
  | helper k => exact (isIdentifier_helper k).1
  | library item => cases item <;> decide
  | function | main => exact isIdentifier_of_isFunction h
  | var | argument | result | scratch | inner => cases h

end Name

/-! ### Literals -/

/-- The tokens of an integer literal. -/
def longTokens (v : Int64) : List Token :=
  if v.toInt = -9223372036854775808 then
    [.openParen, .op .sub, .int 9223372036854775807 true, .op .sub, .int 1 false, .closeParen]
  else if v.toInt < 0 then [.openParen, .op .sub, .int v.toInt.natAbs true, .closeParen]
  else [.int v.toInt.natAbs true]

/-- The tokens of a float literal. -/
def doubleTokens (x : Binary64) : List Token :=
  if x.isNaN then [.word "NAN"]
  else
    let magnitude : Token := if x.isInfinite then .word "INFINITY" else .float x.magnitudeText
    if x.negative then [.openParen, .op .sub, magnitude, .closeParen] else [magnitude]

theorem lexes_longConstant (n : Nat) : Lexes (toString n ++ "LL").toList [.int n true] := by
  rw [String.toList_append, Nat.toString_eq_repr, Nat.toList_repr]
  exact lexes_integer rfl

/-- A constant with the suffix behind a minus sign. -/
theorem lexes_negLong (n : Nat) : Lexes ("-" ++ (toString n ++ "LL")).toList [.op .sub, .int n true] := by
  rw [String.toList_append]
  refine (lexes_longConstant n).signed (by decide) ?_
  obtain ⟨d, ds, hds⟩ := List.exists_cons_of_ne_nil (Nat.toDigits_ne_nil (n := n) (b := 10))
  have hdigits := isDigit_of_mem_digits (n := n)
  rw [hds] at hdigits
  refine ⟨d, ?_, isWordChar_of_isDigit (hdigits d List.mem_cons_self)⟩
  rw [String.toList_append, Nat.toString_eq_repr, Nat.toList_repr, hds]
  rfl

theorem lexes_longLiteral (v : Int64) : Lexes (longLiteral v).toList (longTokens v) := by
  unfold longLiteral longTokens
  split
  · have htext : "(-9223372036854775807LL - 1)" =
        "(" ++ ("-" ++ (toString 9223372036854775807 ++ "LL") ++ " " ++ BinOp.sub.symbol ++ " " ++ "1") ++ ")" := by
      decide
    have hone : Lexes "1".toList [.int 1 false] := lexes_size 1
    rw [htext]
    exact ((lexes_negLong 9223372036854775807).operation .sub hone).parens
  · split
    · next hnegative =>
      obtain ⟨n, hn⟩ : ∃ n, v.toInt = Int.negSucc n := Int.eq_negSucc_of_lt_zero hnegative
      have htext : "(" ++ toString (Int.negSucc n) ++ "LL)" = "(" ++ ("-" ++ (toString (n + 1) ++ "LL")) ++ ")" := by
        change "(" ++ ("-" ++ toString (n + 1)) ++ ("LL" ++ ")") = _
        simp only [String.append_assoc]
      rw [hn, htext]
      exact (lexes_negLong (n + 1)).parens
    · next hnegative =>
      obtain ⟨n, hn⟩ : ∃ n : Nat, v.toInt = n := Int.eq_ofNat_of_zero_le (Int.not_lt.1 hnegative)
      rw [hn]
      exact lexes_longConstant n

theorem lexes_doubleLiteral (x : Binary64) : Lexes (doubleLiteral x).toList (doubleTokens x) := by
  unfold doubleLiteral doubleTokens
  split
  · exact lexes_word (by decide)
  · next hnan =>
    dsimp only
    split
    · have hinfinity : Lexes "INFINITY".toList [.word "INFINITY"] := lexes_word (by decide)
      split
      · exact (hinfinity.signed (s := '-') (t := .op .sub) (by decide) ⟨'I', rfl, by decide⟩).parens (a := "-INFINITY")
      · exact hinfinity
    · next hinfinite =>
      -- the constant starts with a digit, so a sign in front of it stays a token of its own
      have hconstant := floatingConstant_magnitudeText (Bool.eq_false_iff.2 hinfinite)
      have hmagnitude : Lexes x.magnitudeText.toList [.float x.magnitudeText] := by
        have hlexes := hconstant.lexes
        rwa [String.ofList_toList] at hlexes
      unfold Binary64.toText
      rw [if_neg hnan]
      split
      · have hfirst : ∃ c ∈ x.magnitudeText.toList.head?, isWordChar c = true := by
          cases htext : x.magnitudeText.toList with
          | nil =>
            have hlex := hmagnitude.lex_eq
            rw [htext, lex] at hlex
            cases hlex
          | cons c cs => exact ⟨c, rfl, isWordChar_of_isDigit (hconstant.first c (by rw [htext]; rfl))⟩
        have hsigned : Lexes ("-" ++ x.magnitudeText).toList [.op .sub, .float x.magnitudeText] := by
          rw [String.toList_append]
          exact hmagnitude.signed (by decide) hfirst
        exact hsigned.parens
      · exact hmagnitude

/-! ### Expressions -/

namespace Expr

/-- Puts the tokens of an expression in parentheses if it is written with an operator. -/
def enclose (e : Expr) (ts : List Token) : List Token :=
  if e.isOperation then .openParen :: (ts ++ [.closeParen]) else ts

mutual

/-- The tokens of an expression. -/
def tokens : Expr → List Token
  | name n => [.word n.toText]
  | long v => longTokens v
  | double x => doubleTokens x
  | text s => [.text s]
  | size n => [.int n false]
  | nul => [.char '\x00']
  | buffer n =>
    [.openParen, .word "char", .openBracket, .int n false, .closeBracket, .closeParen, .openBrace, .int 0 false,
      .closeBrace]
  | binary op l r => l.enclose l.tokens ++ .op op :: r.enclose r.tokens
  | assign n e => [.word n.toText] ++ .assign :: e.tokens
  | call f args => [.word f.toText] ++ .openParen :: (separated (tokensAll args) ++ [.closeParen])
  | first e => e.enclose e.tokens ++ .openBracket :: ([.int 0 false] ++ [.closeBracket])
  | toLong e => .openParen :: .word "long" :: .word "long" :: .closeParen :: e.enclose e.tokens
  | sizeOf n => [.word "sizeof", .word n.toText]
  | room n =>
    [.word "sizeof", .word n.toText, .op .sub, .word "strlen", .openParen, .word n.toText, .closeParen, .op .sub,
      .int 1 false]
  | addressOf n => [.other "&", .word n.toText]

/-- The tokens of several expressions, one list for each. -/
def tokensAll : List Expr → List (List Token)
  | [] => []
  | e :: es => e.tokens :: tokensAll es

end

theorem tokensAll_eq_map (es : List Expr) : tokensAll es = es.map tokens := by
  induction es with
  | nil => rfl
  | cons e es ih => rw [tokensAll, ih, List.map_cons]

theorem lexes_operand {e : Expr} (h : Lexes e.toText.toList e.tokens) :
    Lexes (e.parenthesize e.toText).toList (e.enclose e.tokens) := by
  unfold parenthesize enclose
  split
  · exact h.parens
  · exact h

theorem lexes_room {w : String} (h : isIdentifier w = true) :
    Lexes ("sizeof " ++ w ++ " - strlen(" ++ w ++ ") - 1").toList
      [.word "sizeof", .word w, .op .sub, .word "strlen", .openParen, .word w, .closeParen, .op .sub, .int 1 false] := by
  have hsize : Lexes ("sizeof" ++ " " ++ w).toList [.word "sizeof", .word w] := (lexes_word h).word (by decide)
  have hlength : Lexes ("strlen" ++ "(" ++ w ++ ")").toList [.word "strlen", .openParen, .word w, .closeParen] := by
    have hstrlen : Lexes "strlen".toList [.word "strlen"] := lexes_word (by decide)
    have hpieces : ∀ x ∈ [(w, [Token.word w])], Lexes x.1.toList x.2 := by simpa using lexes_word h
    simpa [separated] using hstrlen.call hpieces
  have hone : Lexes "1".toList [.int 1 false] := lexes_size 1
  have htext : "sizeof " ++ w ++ " - strlen(" ++ w ++ ") - 1" =
      "sizeof" ++ " " ++ w ++ " " ++ BinOp.sub.symbol ++ " " ++ ("strlen" ++ "(" ++ w ++ ")") ++
        " " ++ BinOp.sub.symbol ++ " " ++ "1" :=
    String.toList_inj.1 (by simp [BinOp.symbol])
  rw [htext]
  exact (hsize.operation .sub hlength).operation .sub hone

mutual

/-- **The text of an expression is divided into its tokens.** -/
theorem lexes : (e : Expr) → e.isNamed = true → Lexes e.toText.toList e.tokens
  | name n, h => lexes_word (n.isIdentifier_of_isValue h)
  | long v, _ => lexes_longLiteral v
  | double x, _ => lexes_doubleLiteral x
  | text s, _ => lexes_textLiteral s
  | size n, _ => by
    have hsize := lexes_size n
    rwa [← Nat.toList_repr] at hsize
  | nul, _ => lexes_nul
  | buffer n, _ => lexes_buffer n
  | binary op l r, h => by
    obtain ⟨hl, hr⟩ := Bool.and_eq_true_iff.1 h
    exact (lexes_operand (lexes l hl)).operation op (lexes_operand (lexes r hr))
  | assign n e, h => by
    obtain ⟨hn, he⟩ := Bool.and_eq_true_iff.1 h
    exact (lexes_word (n.isIdentifier_of_isValue hn)).assignment (lexes e he)
  | call f args, h => by
    obtain ⟨hf, hargs⟩ := Bool.and_eq_true_iff.1 h
    have hcall := (lexes_word (f.isIdentifier_of_isCallee hf)).call (lexesAll args hargs)
    rw [List.map_map, List.map_map] at hcall
    rw [toText, texts_eq_map, tokens, tokensAll_eq_map]
    exact hcall
  | first e, h => (lexes_operand (lexes e h)).first
  | toLong e, h => (lexes_operand (lexes e h)).toLong
  | sizeOf n, h => (lexes_word (n.isIdentifier_of_isValue h)).word (w := "sizeof") (by decide)
  | room n, h => lexes_room (n.isIdentifier_of_isValue h)
  | addressOf n, h => by
    have hn := n.isIdentifier_of_isValue h
    rw [toText, String.toList_append]
    exact (lexes_word hn).signed (by decide) (head?_of_isIdentifier hn)

theorem lexesAll : (es : List Expr) → areNamed es = true →
    ∀ x ∈ es.map fun e => (e.toText, e.tokens), Lexes x.1.toList x.2
  | [], _ => by simp
  | e :: es, h => by
    obtain ⟨he, hes⟩ := Bool.and_eq_true_iff.1 h
    exact List.forall_mem_cons.2 ⟨lexes e he, lexesAll es hes⟩

end

end Expr

/-! ### Statements -/

/-- Lines as they are written, each with a line feed behind it. -/
def linesText (width : Nat) (ls : List Line) : String := String.join (ls.map (·.indented width ++ "\n"))

namespace Stmt

mutual

/-- The tokens of a statement. -/
def tokens : Stmt → List Token
  | expr e => e.tokens ++ [.other ";"]
  | ret e => .word "return" :: e.tokens ++ [.other ";"]
  | buffer n capacity =>
    .word "char" :: ([.word n.toText] ++ .openBracket :: ([.int capacity false] ++ [.closeBracket])) ++ [.other ";"]
  | declare ty n none => ty.tokens ++ [.word n.toText] ++ [.other ";"]
  | declare ty n (some e) => ty.tokens ++ [.word n.toText] ++ .assign :: e.tokens ++ [.other ";"]
  | store n i e =>
    [.word n.toText] ++ .openBracket :: (i.tokens ++ [.closeBracket]) ++ .assign :: e.tokens ++ [.other ";"]
  | branch c a none =>
    .word "if" :: .openParen :: (c.tokens ++ [.closeParen]) ++ [.openBrace] ++ tokensAll a ++ [.closeBrace]
  | branch c a (some b) =>
    .word "if" :: .openParen :: (c.tokens ++ [.closeParen]) ++ [.openBrace] ++ tokensAll a ++
      ([.closeBrace, .word "else", .openBrace] ++ tokensAll b ++ [.closeBrace])
  | loop c b =>
    .word "while" :: .openParen :: (c.tokens ++ [.closeParen]) ++ [.openBrace] ++ tokensAll b ++ [.closeBrace]
  | block b => [.openBrace] ++ tokensAll b ++ [.closeBrace]

/-- The tokens of statements in sequence. -/
def tokensAll : List Stmt → List Token
  | [] => []
  | s :: ss => s.tokens ++ tokensAll ss

end

end Stmt

section Lines

variable {a w : String} {ts us : List Token} {width depth : Nat} {ls ls' : List Line}

theorem Lexes.line (h : Lexes a.toList ts) : LexesLines (linesText width [⟨depth, a⟩]).toList ts := by
  have hlexes : LexesLines ((Line.mk depth a).indented width ++ "\n").toList ts :=
    Lexes.indented (l := ⟨depth, a⟩) h width
  rwa [linesText, List.map_singleton, String.join_cons, String.join_nil, String.append_empty]

theorem LexesLines.lines (h : LexesLines (linesText width ls).toList ts) (h' : LexesLines (linesText width ls').toList us) :
    LexesLines (linesText width (ls ++ ls')).toList (ts ++ us) := by
  rw [linesText, List.map_append, String.join_append, String.toList_append]
  exact h.append h'

/-- Lines of a scope between the line that opens it and the one that closes it. -/
theorem LexesLines.scope (hopen : Lexes a.toList ts) (h : LexesLines (linesText width ls).toList us) :
    LexesLines (linesText width (⟨depth, a⟩ :: ls ++ [⟨depth, "\x7d"⟩])).toList (ts ++ us ++ [.closeBrace]) := by
  have hclose : Lexes "\x7d".toList [.closeBrace] := lexes_nil.bracket (by decide)
  have hfirst : LexesLines (linesText width [⟨depth, a⟩]).toList ts := hopen.line
  exact (hfirst.lines h).lines hclose.line

/-- A condition in front of a scope. -/
theorem Lexes.condition (h : Lexes a.toList ts) (hw : isIdentifier w = true) :
    Lexes (w ++ " (" ++ a ++ ") \x7b").toList (.word w :: .openParen :: (ts ++ [.closeParen]) ++ [.openBrace]) := by
  have htext : w ++ " (" ++ a ++ ") \x7b" = w ++ " " ++ ("(" ++ a ++ ")") ++ " \x7b" := String.toList_inj.1 (by simp)
  rw [htext]
  exact (h.parens.word hw).brace

theorem lexes_else : Lexes "\x7d else \x7b".toList [.closeBrace, .word "else", .openBrace] := by
  have hword : Lexes ("else" ++ " \x7b").toList ([.word "else"] ++ [.openBrace]) :=
    Lexes.brace (lexes_word (by decide))
  exact hword.space.bracket (by decide)

end Lines

namespace Stmt

mutual

/-- **The lines of a statement are divided into its tokens.** -/
theorem lexesLines (width depth : Nat) :
    (s : Stmt) → s.isNamed = true → LexesLines (linesText width (s.lines depth)).toList s.tokens
  | expr e, h => (e.lexes h).semicolon.line
  | ret e, h => ((e.lexes h).word (w := "return") (by decide)).semicolon.line
  | buffer n capacity, h => by
    have hcapacity : Lexes (toString capacity).toList [.int capacity false] := (Expr.size capacity).lexes rfl
    have hindex := ((lexes_word (n.isIdentifier_of_isValue h)).index hcapacity).word (w := "char") (by decide)
    have htext : "char " ++ n.toText ++ "[" ++ toString capacity ++ "];" =
        "char" ++ " " ++ (n.toText ++ "[" ++ toString capacity ++ "]") ++ ";" := String.toList_inj.1 (by simp)
    rw [lines, htext]
    exact hindex.semicolon.line
  | declare ty n none, h => (lexes_declare ty (n.isIdentifier_of_isValue h)).semicolon.line
  | declare ty n (some e), h => by
    obtain ⟨hn, he⟩ := Bool.and_eq_true_iff.1 h
    exact ((lexes_declare ty (n.isIdentifier_of_isValue hn)).assignment (e.lexes he)).semicolon.line
  | store n i e, h => by
    obtain ⟨hn, h⟩ := Bool.and_eq_true_iff.1 h
    obtain ⟨hi, he⟩ := Bool.and_eq_true_iff.1 h
    have hassign := ((lexes_word (n.isIdentifier_of_isValue hn)).index (i.lexes hi)).assignment (e.lexes he)
    have htext : n.toText ++ "[" ++ i.toText ++ "] = " ++ e.toText ++ ";" =
        n.toText ++ "[" ++ i.toText ++ "]" ++ " = " ++ e.toText ++ ";" := String.toList_inj.1 (by simp)
    rw [lines, htext]
    exact hassign.semicolon.line
  | branch c a none, h => by
    obtain ⟨hc, ha⟩ := Bool.and_eq_true_iff.1 h
    exact .scope ((c.lexes hc).condition (w := "if") (by decide)) (lexesLinesAll width (depth + 1) a ha)
  | branch c a (some b), h => by
    obtain ⟨hc, h⟩ := Bool.and_eq_true_iff.1 h
    obtain ⟨ha, hb⟩ := Bool.and_eq_true_iff.1 h
    have hif : LexesLines (linesText width [⟨depth, "if (" ++ c.toText ++ ") \x7b"⟩]).toList
        (.word "if" :: .openParen :: (c.tokens ++ [.closeParen]) ++ [.openBrace]) :=
      ((c.lexes hc).condition (w := "if") (by decide)).line
    rw [lines, List.append_assoc, tokens]
    exact (hif.lines (lexesLinesAll width (depth + 1) a ha)).lines (.scope lexes_else (lexesLinesAll width (depth + 1) b hb))
  | loop c b, h => by
    obtain ⟨hc, hb⟩ := Bool.and_eq_true_iff.1 h
    exact .scope ((c.lexes hc).condition (w := "while") (by decide)) (lexesLinesAll width (depth + 1) b hb)
  | block b, h => by
    have hopen : Lexes "\x7b".toList [.openBrace] := lexes_nil.bracket (by decide)
    exact .scope hopen (lexesLinesAll width (depth + 1) b h)

theorem lexesLinesAll (width depth : Nat) :
    (ss : List Stmt) → areNamed ss = true → LexesLines (linesText width (linesAll depth ss)).toList (tokensAll ss)
  | [], _ => lexesLines_nil
  | s :: ss, h => by
    obtain ⟨hs, hss⟩ := Bool.and_eq_true_iff.1 h
    exact (lexesLines width depth s hs).lines (lexesLinesAll width depth ss hss)

end

end Stmt

/-! ### Functions -/

/-- The tokens of a parameter. -/
def Param.tokens (p : Param) : List Token := p.ty.tokens ++ [.word p.name.toText]

namespace Function

variable {f : Function}

/-- The tokens between the parentheses of a header. -/
def paramTokens : List Param → List Token
  | [] => [.word "void"]
  | params => separated (params.map Param.tokens)

/-- The tokens of the line that opens a function. -/
def headerTokens (f : Function) : List Token :=
  (if f.isStatic then [.word "static"] else []) ++ (f.returns.tokens ++ [.word f.name.toText]) ++
    .openParen :: (paramTokens f.params ++ [.closeParen]) ++ [.openBrace]

/-- The tokens of a function. -/
def tokens (f : Function) : List Token := f.headerTokens ++ Stmt.tokensAll f.body ++ [.closeBrace]

/-- The parameters in their parentheses, behind what a header has in front of them. -/
theorem lexes_params {a : String} {ts : List Token} {params : List Param}
    (h : params.all (·.name.isValue) = true) (ha : Lexes a.toList ts) :
    Lexes (a ++ "(" ++ paramsText params ++ ")").toList (ts ++ .openParen :: (paramTokens params ++ [.closeParen])) := by
  cases params with
  | nil =>
    have hvoid : ∀ x ∈ [("void", [Token.word "void"])], Lexes x.1.toList x.2 :=
      List.forall_mem_singleton.2 (lexes_word (by decide))
    simpa [paramsText, paramTokens, separated] using ha.call hvoid
  | cons p params =>
    have hpieces : ∀ x ∈ (p :: params).map fun q => (q.toText, q.tokens), Lexes x.1.toList x.2 := by
      intro x hx
      obtain ⟨q, hq, rfl⟩ := List.mem_map.1 hx
      exact lexes_declare q.ty (q.name.isIdentifier_of_isValue (List.all_eq_true.1 h q hq))
    have hcall := ha.call hpieces
    rw [List.map_map, List.map_map] at hcall
    exact hcall

theorem lexes_header (h : f.isNamed = true) : Lexes f.header.toList f.headerTokens := by
  obtain ⟨hname, h⟩ := Bool.and_eq_true_iff.1 h
  have hdeclare := lexes_declare f.returns (f.name.isIdentifier_of_isFunction hname)
  have hstart : Lexes ((if f.isStatic then "static " else "") ++ f.returns.declare f.name.toText).toList
      ((if f.isStatic then [.word "static"] else []) ++ (f.returns.tokens ++ [.word f.name.toText])) := by
    cases f.isStatic with
    | false => rwa [if_neg (by decide), String.empty_append]
    | true => exact hdeclare.word (w := "static") (by decide)
  have hheader := (lexes_params (Bool.and_eq_true_iff.1 h).1 hstart).brace
  rwa [String.append_assoc] at hheader

/-- **The text of a function is divided into its tokens.** -/
theorem lexesLines (width : Nat) (h : f.isNamed = true) : LexesLines (f.toText width).toList f.tokens := by
  have hbody := (Bool.and_eq_true_iff.1 (Bool.and_eq_true_iff.1 h).2).2
  exact .scope (lexes_header h) (Stmt.lexesLinesAll width 1 f.body hbody)

end Function

end ImpC.C
