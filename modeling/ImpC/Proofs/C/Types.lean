import ImpC.C.Program

/-!
# Types of expressions in C

Which type an expression of an emitted program has by the rules of C. Literals have the type of their suffix or form, a
comparison is an `int`, arithmetic has the type to which both operands are converted (`ValueTy.common?`), and a name has
the type it is declared with (`Expr.valueTy?`).

`Program.typeIn p c` gives the types of the names inside the function `c` of the program `p`: parameters and local buffers
hide the variables at file scope.
-/

namespace ImpC.C

/-- The types of values. `long` is `long long`, and `chars` is a pointer to characters. -/
inductive ValueTy where
  | int
  | long
  | double
  | chars
  deriving DecidableEq, Repr, Inhabited

/-- The type of the values of a declared type. Sizes take no part in the operations of a program. -/
def DeclTy.valueTy? : DeclTy → Option ValueTy
  | int => some .int
  | long => some .long
  | double => some .double
  | size => none
  | chars | constChars => some .chars

/-- The type to which both operands of an operation are converted: the larger one, if both are numbers. -/
def ValueTy.common? : ValueTy → ValueTy → Option ValueTy
  | chars, _ | _, chars => none
  | double, _ | _, double => some double
  | long, _ | _, long => some long
  | int, int => some int

/-- The type of an operation. There is no remainder of floats. -/
def operationTy? (op : BinOp) (left right : ValueTy) : Option ValueTy := do
  let ty ← left.common? right
  if op.isComparison then return .int
  if op = .mod && ty = .double then none else return ty

/-- The type of an expression, where `scope` gives the types of the names, and for a function that of its result. -/
def Expr.valueTy? (scope : Name → Option ValueTy) : Expr → Option ValueTy
  | .name n => scope n
  | .long _ => some .long
  | .double _ => some .double
  | .text _ | .buffer _ => some .chars
  -- a constant without a suffix is an `int` if it fits
  | .size n => some (if n < 2147483648 then .int else .long)
  | .nul | .first _ => some .int
  | .binary op l r => do
    let left ← l.valueTy? scope
    let right ← r.valueTy? scope
    operationTy? op left right
  | .assign n _ => scope n
  | .call f _ => scope f
  | .toLong e => do
    let ty ← e.valueTy? scope
    if ty = .chars then none else return .long
  | .sizeOf _ | .room _ | .addressOf _ => none

/-- An operation on numbers is an `int` if it compares them, and else has the type they are converted to. -/
theorem Expr.valueTy?_binary {scope : Name → Option ValueTy} {op : BinOp} {l r : Expr} {left right ty : ValueTy}
    (hl : l.valueTy? scope = some left) (hr : r.valueTy? scope = some right) (hty : left.common? right = some ty)
    (hmod : op ≠ .mod) : (Expr.binary op l r).valueTy? scope = some (if op.isComparison then .int else ty) := by
  rw [valueTy?, hl, hr]
  show operationTy? op left right = _
  unfold operationTy?
  rw [hty]
  by_cases hcmp : op.isComparison = true <;> simp [hcmp, hmod]

/-! ### Scopes -/

/-- The name that a variable at file scope declares. -/
def Global.name : Global → Name
  | long n | double n | buffer n _ => n

/-- The type of a variable at file scope. -/
def Global.valueTy : Global → ValueTy
  | long _ => .long
  | double _ => .double
  | buffer .. => .chars

/-- The types of the names at file scope, and of the one function of the library whose value a program uses. -/
def Program.fileTy? (p : Program) : Name → Option ValueTy
  | .var x => (p.globals.find? (·.name == .var x)).map Global.valueTy
  | .function f => (p.functions.find? (·.name == .function f)).bind (·.returns.valueTy?)
  | .helper h => h.function.returns.valueTy?
  | .library .strcmp => some .int
  | _ => none

/-- The buffer that a statement declares. -/
def Stmt.bufferName? : Stmt → Option Name
  | .buffer n _ => some n
  | _ => none

/-- The types of the names that a function declares for itself. -/
def Function.localTy? (c : Function) (n : Name) : Option ValueTy :=
  match c.params.find? (·.name == n) with
  | some param => param.ty.valueTy?
  | none => if n ∈ c.body.filterMap Stmt.bufferName? then some .chars else none

/-- The types of the names inside the function `c` of a program. -/
def Program.typeIn (p : Program) (c : Function) (n : Name) : Option ValueTy := (c.localTy? n).or (p.fileTy? n)

/-! ### Formats -/

/-- The type of the value that a format prints. -/
def conversionTy? (format : String) : Option ValueTy :=
  [("%lld\n", ValueTy.long), ("%f\n", .double), ("%s\n", .chars)].lookup format

end ImpC.C
