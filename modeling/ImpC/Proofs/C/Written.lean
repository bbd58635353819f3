import ImpC.Proofs.C.Parser
import ImpC.Proofs.C.Spelling

/-!
# How expressions are written

`Reads L text t` says that a text is an expression of the level `L` with the tree `t`: it is divided into tokens, and the
grammar derives the tree from them. `Written L text t` says so of a text that is part of a longer one, where a delimiter
follows it. There is one lemma for each form of expression, which puts a text together from the texts of its parts. An
operand has to be of the level that its operator asks for, and parentheses make every expression one of the tightest level
(`Written.parens`).

What is written is read back, and in no other way (`Written.reads_iff`).

The literals of negative numbers are operations in parentheses. `Tree.constant?` gives the value of an expression of integer
constants, as far as each constant and each result on the way is in the range of its type; for the literal of an integer
that is the integer, as a `long long` (`constant?_long`).
-/

namespace ImpC.C

/-- The text is an expression of the level, and this is its tree. -/
def Reads (L : Level) (text : String) (t : Tree) : Prop := ∃ ts, lex text.toList = some ts ∧ Derives L ts t

/-- In front of a delimiter, the text is an expression of the level, and this is its tree. -/
def Written (L : Level) (text : String) (t : Tree) : Prop := ∃ ts, Lexes text.toList ts ∧ Derives L ts t

variable {L M : Level} {text a b : String} {t u : Tree}

/-- **What is written is read back, and in no other way**, at its own level and at every looser one. -/
theorem Written.reads_iff (h : Written M text t) (hLM : L.rank ≤ M.rank) : Reads L text u ↔ u = t := by
  obtain ⟨ts, hlexes, hderives⟩ := h
  constructor
  · rintro ⟨ts', hlex, hderives'⟩
    rw [hlexes.lex_eq] at hlex
    cases hlex
    exact hderives'.unique hderives
  · rintro rfl
    exact ⟨ts, hlexes.lex_eq, hderives.loosen hLM⟩

theorem Written.loosen (h : Written M text t) (hLM : L.rank ≤ M.rank) : Written L text t := by
  obtain ⟨ts, hlexes, hderives⟩ := h
  exact ⟨ts, hlexes, hderives.loosen hLM⟩

theorem Written.suffixed (h : Written .primary text t) : Written .suffixed text t := h.loosen (by decide)

/-! ### Primary expressions -/

theorem written_ident (h : isIdentifier text = true) (hkeyword : text ∉ keywords) : Written .primary text (.ident text) :=
  ⟨[.word text], lexes_word h, .ident hkeyword⟩

theorem written_size (n : Nat) : Written .primary (toString n) (.int n false) := by
  refine ⟨[.int n false], ?_, .int n false⟩
  rw [Nat.toString_eq_repr, Nat.toList_repr]
  exact lexes_size n

theorem written_longConstant (n : Nat) : Written .primary (toString n ++ "LL") (.int n true) := by
  refine ⟨[.int n true], ?_, .int n true⟩
  have hlexes : Lexes (Nat.toDigits 10 n ++ ['L', 'L']) [.int n true] := lexes_integer rfl
  rwa [← Nat.toList_repr, show ['L', 'L'] = "LL".toList from rfl, ← String.toList_append] at hlexes

theorem written_text (s : String) : Written .primary (textLiteral s) (.text s) :=
  ⟨[.text s], lexes_textLiteral s, .text s⟩

theorem written_nul : Written .primary "'\\0'" (.char '\x00') := ⟨[.char '\x00'], lexes_nul, .char _⟩

/-- **Parentheses.** Every expression is a primary one in parentheses, with the same tree. -/
theorem Written.parens (h : Written L a t) : Written .primary ("(" ++ a ++ ")") t := by
  obtain ⟨ts, hlexes, hderives⟩ := h
  exact ⟨_, hlexes.parens, .parens (hderives.loosen (Nat.zero_le _))⟩

/-! ### Operators and suffixes -/

/-- A minus sign in front of a name or a number. -/
theorem Written.neg (h : Written .cast a t) (hfirst : ∀ c ∈ a.toList.head?, isWordChar c = true) :
    Written .unary ("-" ++ a) (.neg t) := by
  obtain ⟨ts, hlexes, hderives⟩ := h
  refine ⟨.op .sub :: ts, ?_, .neg hderives⟩
  have htext : ("-" ++ a).toList = '-' :: a.toList := by simp
  rw [htext]
  refine hlexes.signed (by decide) ?_
  obtain ⟨d, rest, rfl, -⟩ := hderives.starts
  cases ha : a.toList with
  | nil =>
    -- an expression has tokens, and an empty text has none
    have hlex := hlexes.lex_eq
    rw [ha, lex] at hlex
    cases hlex
  | cons c cs =>
    rw [ha] at hfirst
    exact ⟨c, rfl, hfirst c rfl⟩

theorem Written.operation (op : BinOp) (hop : operatorLevel op = L) (hl : Written L a t) (hr : Written L.next b u) :
    Written L (a ++ " " ++ op.symbol ++ " " ++ b) (.binary op t u) := by
  obtain ⟨ts, hlexes, hderives⟩ := hl
  obtain ⟨us, hlexes', hderives'⟩ := hr
  exact ⟨_, hlexes.operation op hlexes', .operation hop hderives hderives'⟩

theorem Written.assign (ht : Written .unary a t) (hv : Written .assignment b u) :
    Written .assignment (a ++ " = " ++ b) (.assign t u) := by
  obtain ⟨ts, hlexes, hderives⟩ := ht
  obtain ⟨us, hlexes', hderives'⟩ := hv
  exact ⟨_, hlexes.assignment hlexes', .assign hderives hderives'⟩

/-- The first element of an array. -/
theorem Written.first (h : Written .suffixed a t) : Written .suffixed (a ++ "[0]") (.index t (.int 0 false)) := by
  obtain ⟨ts, hlexes, hderives⟩ := h
  exact ⟨_, hlexes.first, .index hderives (Derives.loosen (.int 0 false) (Nat.zero_le _))⟩

/-- A cast to `long long`. -/
theorem Written.toLong (h : Written .cast a t) : Written .cast ("(long long)" ++ a) (.cast .longLong t) := by
  obtain ⟨ts, hlexes, hderives⟩ := h
  exact ⟨_, hlexes.toLong, .cast .longLong hderives⟩

/-- A buffer is a compound literal. -/
theorem written_buffer (n : Nat) : Written .suffixed ("(char[" ++ toString n ++ "])\x7b0\x7d")
    (.compound (.chars n) (.int 0 false)) :=
  ⟨_, lexes_buffer n, .compound (.chars n) (Derives.loosen (.int 0 false) (Nat.zero_le _))⟩

/-! ### Calls -/

theorem exists_tokens {args : List (String × Tree)} (h : ∀ x ∈ args, Written L x.1 x.2) :
    ∃ args' : List (String × List Token × Tree), args'.map (fun x => (x.1, x.2.2)) = args ∧
      ∀ x ∈ args', Lexes x.1.toList x.2.1 ∧ Derives L x.2.1 x.2.2 := by
  induction args with
  | nil => exact ⟨[], rfl, nofun⟩
  | cons x args ih =>
    obtain ⟨⟨ts, hx⟩, h⟩ := List.forall_mem_cons.1 h
    obtain ⟨args', rfl, hargs'⟩ := ih h
    exact ⟨(x.1, ts, x.2) :: args', rfl, List.forall_mem_cons.2 ⟨hx, hargs'⟩⟩

/-- A call, with the arguments given by their texts and trees. -/
theorem Written.call {args : List (String × Tree)} (h : Written .suffixed a t)
    (hargs : ∀ x ∈ args, Written .assignment x.1 x.2) :
    Written .suffixed (a ++ "(" ++ ", ".intercalate (args.map (·.1)) ++ ")") (.call t (args.map (·.2))) := by
  obtain ⟨ts, hlexes, hderives⟩ := h
  obtain ⟨args', rfl, hargs'⟩ := exists_tokens hargs
  -- the grammar goes by tokens and trees, the text by texts and tokens
  have hcall := Derives.call hderives (args'.map (·.2)) (by simpa using fun _ _ _ hx => (hargs' _ hx).2)
  rw [List.map_map, List.map_map] at hcall ⊢
  have hpieces : ∀ x ∈ args'.map (fun x => (x.1, x.2.1)), Lexes x.1.toList x.2 := by
    intro x hx
    obtain ⟨y, hy, rfl⟩ := List.mem_map.1 hx
    exact (hargs' y hy).1
  have hlexes' := hlexes.call hpieces
  rw [List.map_map, List.map_map] at hlexes'
  exact ⟨_, hlexes', hcall⟩

/-! ### Literals of numbers -/

/-- An integer as it is written: a constant, one with a minus sign, or, for the least integer, a difference. -/
def Tree.long (v : Int64) : Tree :=
  if v.toInt = -9223372036854775808 then .binary .sub (.neg (.int 9223372036854775807 true)) (.int 1 false)
  else if v.toInt < 0 then .neg (.int v.toInt.natAbs true)
  else .int v.toInt.natAbs true

/-- A double as it is written: a constant or a macro, or one with a minus sign. -/
def Tree.double (x : Binary64) : Tree :=
  if x.isNaN then .ident "NAN"
  else
    let magnitude : Tree := if x.isInfinite then .ident "INFINITY" else .float x.magnitudeText
    if x.negative then .neg magnitude else magnitude

/-- A constant with the suffix behind a minus sign. -/
theorem written_negLong (n : Nat) : Written .unary ("-" ++ (toString n ++ "LL")) (.neg (.int n true)) := by
  refine ((written_longConstant n).loosen (by decide)).neg fun c hc => ?_
  obtain ⟨d, ds, hds⟩ := List.exists_cons_of_ne_nil (Nat.toDigits_ne_nil (n := n) (b := 10))
  have hdigits := isDigit_of_mem_digits (n := n)
  rw [String.toList_append, Nat.toString_eq_repr, Nat.toList_repr] at hc
  rw [hds] at hc hdigits
  cases hc
  exact isWordChar_of_isDigit (hdigits c List.mem_cons_self)

theorem written_long (v : Int64) : Written .primary (longLiteral v) (.long v) := by
  unfold longLiteral Tree.long
  split
  -- the least integer has no constant, since the constant would be read before the sign
  · have htext : "(-9223372036854775807LL - 1)" =
        "(" ++ ("-" ++ (toString 9223372036854775807 ++ "LL") ++ " " ++ BinOp.sub.symbol ++ " " ++ toString 1) ++ ")" := by
      decide
    have hleft := (written_negLong 9223372036854775807).loosen (L := .additive) (by decide)
    have hright := (written_size 1).loosen (L := .multiplicative) (by decide)
    rw [htext]
    exact (Written.operation .sub rfl hleft hright).parens
  · split
    · next hnegative =>
      obtain ⟨n, hn⟩ : ∃ n, v.toInt = Int.negSucc n := Int.eq_negSucc_of_lt_zero hnegative
      have htext : "(" ++ toString (Int.negSucc n) ++ "LL)" = "(" ++ ("-" ++ (toString (n + 1) ++ "LL")) ++ ")" := by
        change "(" ++ ("-" ++ toString (n + 1)) ++ ("LL" ++ ")") = _
        simp only [String.append_assoc]
      rw [hn, htext]
      exact (written_negLong (n + 1)).parens
    · next hnegative =>
      obtain ⟨n, hn⟩ : ∃ n : Nat, v.toInt = n := Int.eq_ofNat_of_zero_le (Int.not_lt.1 hnegative)
      rw [hn]
      exact written_longConstant n

theorem written_magnitude {x : Binary64} (h : x.isInfinite = false) :
    Written .primary x.magnitudeText (.float x.magnitudeText) := by
  refine ⟨[.float x.magnitudeText], ?_, .float _⟩
  have hlexes := (floatingConstant_magnitudeText h).lexes
  rwa [String.ofList_toList] at hlexes

theorem written_double (x : Binary64) : Written .primary (doubleLiteral x) (.double x) := by
  unfold doubleLiteral Tree.double
  split
  · exact written_ident (by decide) (by decide)
  · next hnan =>
    dsimp only
    split
    · have hinfinity : Written .primary "INFINITY" (.ident "INFINITY") := written_ident (by decide) (by decide)
      split
      · exact ((hinfinity.loosen (by decide)).neg fun c hc => by cases hc; rfl).parens
      · exact hinfinity
    · next hinfinite =>
      -- the constant starts with a digit, so a sign in front of it stays a token of its own
      have hconstant := floatingConstant_magnitudeText (Bool.eq_false_iff.2 hinfinite)
      have hmagnitude := written_magnitude (Bool.eq_false_iff.2 hinfinite)
      unfold Binary64.toText
      rw [if_neg hnan]
      split
      · exact ((hmagnitude.loosen (by decide)).neg fun c hc => isWordChar_of_isDigit (hconstant.first c hc)).parens
      · exact hmagnitude

/-! ### The values of integer literals -/

/-- The value, if it is in the range of `long long`, or of `int`, whose values have 32 bits. -/
def inRange? (isLong : Bool) (value : Int) : Option (Bool × Int) :=
  let bound : Int := if isLong then 9223372036854775808 else 2147483648
  if -bound ≤ value ∧ value < bound then some (isLong, value) else none

/-- The value of an expression of integer constants, and whether it is a `long long`. A constant without a suffix is an
`int` if it fits. The result of a subtraction is a `long long` if one of its operands is. There is no value if a constant or
a result is out of the range of its type. -/
def Tree.constant? : Tree → Option (Bool × Int)
  | .int n isLong => inRange? (isLong || decide (2147483648 ≤ n)) n
  | .neg t => do
    let (isLong, value) ← t.constant?
    inRange? isLong (-value)
  | .binary .sub l r => do
    let (isLong, left) ← l.constant?
    let (isLong', right) ← r.constant?
    inRange? (isLong || isLong') (left - right)
  | _ => none

theorem inRange?_eq_some {value : Int} (h : -9223372036854775808 ≤ value) (h' : value < 9223372036854775808) :
    inRange? true value = some (true, value) := if_pos ⟨h, h'⟩

/-- **An integer literal is a `long long` of its value**, with every constant in it in range. -/
theorem constant?_long (v : Int64) : (Tree.long v).constant? = some (true, v.toInt) := by
  have hmin : -9223372036854775808 ≤ v.toInt := v.le_toInt
  have hmax : v.toInt < 9223372036854775808 := v.toInt_lt
  unfold Tree.long
  split
  · next hleast =>
    rw [hleast]
    decide
  · next hleast =>
    split
    · next hnegative =>
      -- above the least integer the magnitude is in range as well
      have hconstant : (Tree.int v.toInt.natAbs true).constant? = some (true, (v.toInt.natAbs : Int)) :=
        inRange?_eq_some (by omega) (by omega)
      rw [Tree.constant?, hconstant]
      have hvalue : -(v.toInt.natAbs : Int) = v.toInt := by omega
      dsimp only [Option.bind_eq_bind, Option.bind_some]
      rw [hvalue]
      exact inRange?_eq_some hmin hmax
    · next hnegative =>
      have hvalue : (v.toInt.natAbs : Int) = v.toInt := by omega
      rw [Tree.constant?, hvalue]
      exact inRange?_eq_some hmin hmax

end ImpC.C
