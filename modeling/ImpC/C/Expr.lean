import ImpC.BinOp
import ImpC.C.Helper
import ImpC.C.Literal

/-!
# Expressions in C

`Name` holds the names of an emitted program by what they stand for. Names of the source program never appear as they
are: variables, functions and incoming texts have a prefix each, which keeps them apart from one another and from the
words of C, of its library and of the helpers.

`Expr.toText` writes an expression. An operand that is itself an operation or an assignment is put in parentheses
(`Expr.operandText`), so the text never depends on the binding strength of the operators.
-/

namespace ImpC.C

/-- What an emitted program uses of the standard library. -/
inductive Library where
  | printf
  | scanf
  | strcmp
  | strlen
  | strncat
  | memmove
  | fmod
  | fprintf
  | stderr
  | exit
  | exitFailure
  deriving DecidableEq, Repr, Inhabited

/-- The name in the standard library. -/
def Library.name : Library → String
  | printf => "printf"
  | scanf => "scanf"
  | strcmp => "strcmp"
  | strlen => "strlen"
  | strncat => "strncat"
  | memmove => "memmove"
  | fmod => "fmod"
  | fprintf => "fprintf"
  | stderr => "stderr"
  | exit => "exit"
  | exitFailure => "EXIT_FAILURE"

/-- A name in the emitted program. -/
inductive Name where
  /-- A variable of the program, or the local buffer of a text parameter. -/
  | var (name : String)
  /-- The incoming pointer of a text parameter. -/
  | argument (name : String)
  /-- A function of the program. -/
  | function (name : String)
  /-- A helper routine. -/
  | helper (helper : Helper)
  /-- Something of the standard library. -/
  | library (item : Library)
  /-- The buffer of the caller that receives a text result. -/
  | result
  /-- The buffer in which a concatenation is put together. -/
  | scratch
  /-- A parameter or variable of a helper routine. -/
  | inner (name : String)
  /-- The function in which the program starts. -/
  | main
  deriving DecidableEq, Repr, Inhabited

/-- The spelling of a name. -/
def Name.toText : Name → String
  | var x => "v_" ++ x
  | argument x => "a_" ++ x
  | function f => "f_" ++ f
  | helper h => h.name
  | library l => l.name
  | result => "rt_out"
  | scratch => "rt_concat"
  | inner x => x
  | main => "main"

/-- An expression. -/
inductive Expr where
  /-- The value of a name. -/
  | name (n : Name)
  /-- An integer literal. -/
  | long (value : Int64)
  /-- A float literal. -/
  | double (value : Binary64)
  /-- A string literal. -/
  | text (value : String)
  /-- A plain constant, such as a size. -/
  | size (value : Nat)
  /-- The character that ends a text. -/
  | nul
  /-- A fresh buffer of the given capacity, filled with zeros. -/
  | buffer (capacity : Nat)
  /-- A binary operation. -/
  | binary (op : BinOp) (left right : Expr)
  /-- An assignment. -/
  | assign (target : Name) (value : Expr)
  /-- A call. -/
  | call (callee : Name) (args : List Expr)
  /-- The first character of a text. -/
  | first (e : Expr)
  /-- The value as a `long long`. -/
  | toLong (e : Expr)
  /-- The size of a buffer. -/
  | sizeOf (n : Name)
  /-- The bytes of a buffer that are free behind the text in it. -/
  | room (n : Name)
  /-- The address of a variable. -/
  | addressOf (n : Name)
  deriving Repr

namespace Expr

/-- Whether an expression is written with an operator between its parts. -/
def isOperation : Expr → Bool
  | binary .. | assign .. => true
  | _ => false

/-- Puts the text of an expression in parentheses if it is written with an operator. -/
def parenthesize (e : Expr) (text : String) : String :=
  if e.isOperation then "(" ++ text ++ ")" else text

mutual

/-- The text of an expression where no operator binds around it. -/
def toText : Expr → String
  | name n => n.toText
  | long v => longLiteral v
  | double x => doubleLiteral x
  | text s => textLiteral s
  | size n => toString n
  | nul => "'\\0'"
  | buffer n => "(char[" ++ toString n ++ "])\x7b0\x7d"
  | binary op l r => l.parenthesize l.toText ++ " " ++ op.symbol ++ " " ++ r.parenthesize r.toText
  | assign n e => n.toText ++ " = " ++ e.toText
  | call f args => f.toText ++ "(" ++ ", ".intercalate (texts args) ++ ")"
  | first e => e.parenthesize e.toText ++ "[0]"
  | toLong e => "(long long)" ++ e.parenthesize e.toText
  | sizeOf n => "sizeof " ++ n.toText
  | room n => "sizeof " ++ n.toText ++ " - strlen(" ++ n.toText ++ ") - 1"
  | addressOf n => "&" ++ n.toText

/-- The texts of several expressions. -/
def texts : List Expr → List String
  | [] => []
  | e :: es => e.toText :: texts es

end

/-- The text of an expression that is safe as an operand of another. -/
def operandText (e : Expr) : String := e.parenthesize e.toText

mutual

/-- Requires what an expression needs: the helpers it calls, and `math.h` for literals that are macros. -/
def require (s : Support) : Expr → Support
  | double x => if needsMath x then s.requireMath else s
  | binary _ l r => require (require s l) r
  | assign _ e => require s e
  | call (.helper h) args => requireAll (s.require h) args
  | call _ args => requireAll s args
  | first e => require s e
  | toLong e => require s e
  | name _ | long _ | text _ | size _ | nul | buffer _ | sizeOf _ | room _ | addressOf _ => s

/-- Requires what several expressions need. -/
def requireAll (s : Support) : List Expr → Support
  | [] => s
  | e :: es => requireAll (require s e) es

end

end Expr

end ImpC.C
