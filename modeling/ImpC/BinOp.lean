import ImpC.Ty

/-!
# Binary operators

The eleven operators, their spelling, and the type of their result. A comparison takes two operands of one type and
gives a flag; `+` on two texts is concatenation; every other operation is arithmetic, and is carried out on floats
as soon as one operand is a float (`BinOp.resultTy?`).

Main statement: `BinOp.ofSymbol?_eq_some_iff`, spelling an operator and reading it are inverse to each other.
-/

namespace ImpC

/-- The binary operators. -/
inductive BinOp where
  | add
  | sub
  | mul
  | div
  | mod
  | eq
  | ne
  | lt
  | le
  | gt
  | ge
  deriving DecidableEq, Repr, Inhabited

namespace BinOp

/-- Every operator, once. -/
def all : List BinOp := [add, sub, mul, div, mod, eq, ne, lt, le, gt, ge]

theorem mem_all (op : BinOp) : op ∈ all := by cases op <;> decide

/-- The token an operator is written with. -/
def symbol : BinOp → String
  | add => "+"
  | sub => "-"
  | mul => "*"
  | div => "/"
  | mod => "%"
  | eq => "=="
  | ne => "!="
  | lt => "<"
  | le => "<="
  | gt => ">"
  | ge => ">="

/-- The operator a token stands for. -/
def ofSymbol? (token : String) : Option BinOp :=
  all.find? (·.symbol == token)

/-- Comparisons give a flag, whatever they compare. -/
def isComparison : BinOp → Bool
  | eq | ne | lt | le | gt | ge => true
  | add | sub | mul | div | mod => false

/-- Division and remainder have to look at their right operand before they are carried out. -/
def isGuarded : BinOp → Bool
  | div | mod => true
  | add | sub | mul | eq | ne | lt | le | gt | ge => false

/-- The type of an arithmetic result: a text only from `+` on two texts, a float as soon as one operand is one. -/
def arithmeticTy? (op : BinOp) : Ty → Ty → Option Ty
  | .text, .text => if op = add then some .text else none
  | .text, _ | _, .text => none
  | .float, _ | _, .float => some .float
  | .int, .int => some .int

/-- The type of the result, or `none` where the operator cannot be applied to operands of these types. -/
def resultTy? (op : BinOp) (left right : Ty) : Option Ty :=
  if op.isComparison then
    if left = right then some .int else none
  else
    op.arithmeticTy? left right

@[simp] theorem ofSymbol?_symbol (op : BinOp) : ofSymbol? op.symbol = some op := by
  cases op <;> decide

/-- **Spelling and reading are inverse.** A token is read as an operator exactly when it is that operator's symbol. -/
theorem ofSymbol?_eq_some_iff {token : String} {op : BinOp} : ofSymbol? token = some op ↔ token = op.symbol := by
  constructor
  · intro h
    have := List.find?_some h
    exact (eq_of_beq this).symm
  · rintro rfl
    exact ofSymbol?_symbol op

end BinOp

end ImpC
