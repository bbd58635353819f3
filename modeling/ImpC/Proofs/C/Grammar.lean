import ImpC.Proofs.C.Token

/-!
# The grammar of C expressions

`Derives L ts t` is the grammar of expressions: the tokens `ts` form an expression of the level `L`, and its tree is `t`. The
levels are those of the standard, from assignment down to primary expressions, as far as emitted programs use them. A
level consists of what the next tighter one consists of, and of the forms of its own; a binary operator takes operands of
its own level on the left and of the next one on the right, and so binds to the left. Parentheses leave no trace in the
tree.
-/

namespace ImpC.C

/-! ### Trees -/

/-- The types that are written in expressions. -/
inductive TypeName where
  | longLong
  /-- An array of characters. -/
  | chars (size : Nat)
  deriving DecidableEq, Repr, Inhabited

/-- The tokens of a type. -/
def TypeName.tokens : TypeName → List Token
  | longLong => [.word "long", .word "long"]
  | chars n => [.word "char", .openBracket, .int n false, .closeBracket]

/-- The tree of an expression. -/
inductive Tree where
  | ident (name : String)
  | int (value : Nat) (isLong : Bool)
  | float (spelling : String)
  | text (value : String)
  | char (value : Char)
  /-- A compound literal, which is an object of the type with the given first element. -/
  | compound (ty : TypeName) (init : Tree)
  | call (callee : Tree) (args : List Tree)
  | index (e i : Tree)
  | neg (e : Tree)
  | cast (ty : TypeName) (e : Tree)
  | binary (op : BinOp) (left right : Tree)
  | assign (target value : Tree)
  deriving Repr, Inhabited

/-! ### Levels -/

/-- The levels of expressions, from the loosest to the tightest. -/
inductive Level where
  | assignment
  | equality
  | relational
  | additive
  | multiplicative
  | cast
  | unary
  /-- Postfix expressions. -/
  | suffixed
  | primary
  deriving DecidableEq, Repr, Inhabited

/-- The next tighter level. -/
def Level.next : Level → Level
  | assignment => equality
  | equality => relational
  | relational => additive
  | additive => multiplicative
  | multiplicative => cast
  | cast => unary
  | unary => suffixed
  | suffixed | primary => primary

/-- The number of steps from the loosest level. -/
def Level.rank : Level → Nat
  | assignment => 0
  | equality => 1
  | relational => 2
  | additive => 3
  | multiplicative => 4
  | cast => 5
  | unary => 6
  | suffixed => 7
  | primary => 8

/-- The level of a binary operator. -/
def operatorLevel : BinOp → Level
  | .mul | .div | .mod => .multiplicative
  | .add | .sub => .additive
  | .lt | .le | .gt | .ge => .relational
  | .eq | .ne => .equality

/-! ### The grammar -/

/-- The words that are no identifiers. -/
def keywords : List String :=
  ["auto", "break", "case", "char", "const", "continue", "default", "do", "double", "else", "enum", "extern", "float",
    "for", "goto", "if", "inline", "int", "long", "register", "restrict", "return", "short", "signed", "sizeof",
    "static", "struct", "switch", "typedef", "union", "unsigned", "void", "volatile", "while", "_Alignas", "_Alignof",
    "_Atomic", "_Bool", "_Complex", "_Generic", "_Imaginary", "_Noreturn", "_Static_assert", "_Thread_local"]

/-- Token lists with commas between them. -/
def separated : List (List Token) → List Token
  | [] => []
  | [ts] => ts
  | ts :: us :: rest => ts ++ .comma :: separated (us :: rest)

/-- The tokens form an expression of the level, and this is its tree. -/
inductive Derives : Level → List Token → Tree → Prop where
  -- primary expressions
  | ident {w : String} (hw : w ∉ keywords) : Derives .primary [.word w] (.ident w)
  | int (n : Nat) (isLong : Bool) : Derives .primary [.int n isLong] (.int n isLong)
  | float (s : String) : Derives .primary [.float s] (.float s)
  | text (s : String) : Derives .primary [.text s] (.text s)
  | char (c : Char) : Derives .primary [.char c] (.char c)
  | parens {ts : List Token} {t : Tree} (h : Derives .assignment ts t) :
      Derives .primary (.openParen :: (ts ++ [.closeParen])) t
  -- postfix expressions
  | compound (ty : TypeName) {ts : List Token} {t : Tree} (h : Derives .assignment ts t) :
      Derives .suffixed (.openParen :: (ty.tokens ++ .closeParen :: .openBrace :: (ts ++ [.closeBrace]))) (.compound ty t)
  | index {ts us : List Token} {t i : Tree} (ht : Derives .suffixed ts t) (hi : Derives .assignment us i) :
      Derives .suffixed (ts ++ .openBracket :: (us ++ [.closeBracket])) (.index t i)
  | call {ts : List Token} {f : Tree} (hf : Derives .suffixed ts f) (args : List (List Token × Tree))
      (hargs : ∀ a ∈ args, Derives .assignment a.1 a.2) :
      Derives .suffixed (ts ++ .openParen :: (separated (args.map (·.1)) ++ [.closeParen])) (.call f (args.map (·.2)))
  -- unary expressions and casts
  | neg {ts : List Token} {t : Tree} (h : Derives .cast ts t) : Derives .unary (.op .sub :: ts) (.neg t)
  | cast (ty : TypeName) {ts : List Token} {t : Tree} (h : Derives .cast ts t) :
      Derives .cast (.openParen :: (ty.tokens ++ .closeParen :: ts)) (.cast ty t)
  -- binary operators and assignments
  | operation {op : BinOp} {L : Level} (hop : operatorLevel op = L) {ts us : List Token} {l r : Tree}
      (hl : Derives L ts l) (hr : Derives L.next us r) : Derives L (ts ++ .op op :: us) (.binary op l r)
  | assign {ts us : List Token} {t v : Tree} (ht : Derives .unary ts t) (hv : Derives .assignment us v) :
      Derives .assignment (ts ++ .assign :: us) (.assign t v)
  /-- What is of a level is of the looser ones. -/
  | next {L : Level} {ts : List Token} {t : Tree} (h : Derives L.next ts t) : Derives L ts t

/-- What passes from each level to the one it is next to passes to all looser ones. -/
theorem Level.loosen {P : Level → Prop} (step : ∀ L : Level, P L.next → P L) {L M : Level} (hLM : L.rank ≤ M.rank)
    (h : P M) : P L := by
  -- from one level to the next, downwards from `M`
  induction hd : M.rank - L.rank generalizing L with
  | zero =>
    obtain rfl : L = M := by
      cases L <;> cases M <;> first | rfl | (simp [Level.rank] at hLM hd)
    exact h
  | succ d ih =>
    have hnext : L.next.rank = L.rank + 1 := by
      cases L <;> first | rfl | (cases M <;> simp [Level.rank] at hd)
    exact step L (ih (by omega) (by omega))

/-- An expression of a level may stand where a looser level is asked for. -/
theorem Derives.loosen {L M : Level} {ts : List Token} {t : Tree} (h : Derives M ts t) (hLM : L.rank ≤ M.rank) :
    Derives L ts t :=
  Level.loosen (P := (Derives · ts t)) (fun _ => .next) hLM h

end ImpC.C
