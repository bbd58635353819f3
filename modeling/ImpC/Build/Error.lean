import ImpC.BinOp

/-!
# Why a construct is refused

`BuildError` gives the causes, `BuildError.message` their wording, and `BuildError.subject?` the name or operator an error is
about, by which it can be found in the program text.
-/

namespace ImpC

/-- The reasons for refusing a construct. -/
inductive BuildError where
  /-- A variable is used that is not declared. -/
  | undeclaredIdentifier (name : String)
  /-- An operator is applied to operands of types it is not defined on. -/
  | incompatibleOperands (op : BinOp) (left right : Ty)
  /-- The value assigned is not of the type of the variable. -/
  | assignMismatch (name : String) (expected found : Ty)
  /-- A value is needed at the place described, and the part there has none. -/
  | notAnExpression (place : String)
  /-- A parameter of the function is not a declaration. -/
  | invalidParameter (function : String)
  /-- No operator is written with this token. -/
  | unknownOperator (symbol : String)
  /-- A function is called that is not registered. -/
  | undeclaredFunction (name : String)
  /-- A call has more or fewer arguments than the function has parameters. -/
  | argumentCount (name : String) (expected found : Nat)
  /-- An argument is not of the type of its parameter; positions count from one. -/
  | argumentMismatch (name : String) (position : Nat) (expected found : Ty)
  /-- The name is declared already. -/
  | redeclaration (name : String)
  deriving DecidableEq, Repr, Inhabited

namespace BuildError

/-- What the error says. -/
def message : BuildError → String
  | undeclaredIdentifier name => s!"undeclared identifier `{name}`"
  | incompatibleOperands op left right =>
    "operator `" ++ op.symbol ++ "` cannot be applied to `" ++ left.keyword ++ "` and `" ++ right.keyword ++ "`"
  | assignMismatch name expected found =>
    "cannot assign a `" ++ found.keyword ++ "` value to `" ++ name ++ "`, declared as `" ++ expected.keyword ++ "`"
  | notAnExpression place => s!"expected an expression as {place}"
  | invalidParameter function => s!"parameters of `{function}` must be declarations"
  | unknownOperator symbol => s!"unknown operator `{symbol}`"
  | undeclaredFunction name => s!"call to undeclared function `{name}`"
  | argumentCount name expected found => s!"`{name}` expects {expected} argument(s), found {found}"
  | argumentMismatch name position expected found =>
    s!"argument {position} of `{name}` should be `" ++ expected.keyword ++ "`, found `" ++ found.keyword ++ "`"
  | redeclaration name => s!"`{name}` is already declared"

/-- The name or operator the error is about. -/
def subject? : BuildError → Option String
  | undeclaredIdentifier name => some name
  | incompatibleOperands op _ _ => some op.symbol
  | assignMismatch name _ _ => some name
  | notAnExpression _ => none
  | invalidParameter function => some function
  | unknownOperator symbol => some symbol
  | undeclaredFunction name => some name
  | argumentCount name _ _ => some name
  | argumentMismatch name _ _ _ => some name
  | redeclaration name => some name

end BuildError

end ImpC
