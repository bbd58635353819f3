import ImpC.C.Stmt
import ImpC.Emit.Expr

/-!
# Emitting statements

A statement of the language becomes any number of statements in C. Declarations and definitions of functions become none:
what they declare is written at file scope. Blocks do not nest in the result, and a counting loop is its first step
followed by a plain loop whose body ends with the step after each round.

A text is assigned by a copy into the buffer of the variable; a concatenation is put together in a scratch buffer first,
so that its operands may refer to the variable that is written. Reading is the one statement that asks for the type of a
variable again, which `readTy` gives. A `return` inside a function that returns a text copies it to the caller's buffer;
`result` is the type the enclosing function returns, and `none` in `main`.
-/

namespace ImpC.Emit

open C (Expr Stmt)

/-- The conversion that prints a value of the given type on a line of its own. -/
def printFormat : Ty → String
  | .int => "%lld\n"
  | .float => "%f\n"
  | .text => "%s\n"

/-- The conversion that reads a value of the given type. A text is read up to the capacity of a variable. -/
def scanFormat (o : EmitOptions) : Ty → String
  | .int => "%lld"
  | .float => "%lf"
  | .text => "%" ++ toString (o.textCapacity - 1) ++ "s"

/-- Puts two texts together in a scratch buffer and copies the result to a variable. -/
def concatenation (o : EmitOptions) (x : String) (l r : Expr) : Stmt :=
  .block
    [.buffer .scratch o.concatCapacity,
     .expr (.call (.helper .textCopy) [.name .scratch, l, .sizeOf .scratch]),
     .expr (.call (.library .strncat) [.name .scratch, r, .room .scratch]),
     .expr (copyText o (.var x) (.name .scratch))]

/-- The statement for an assignment. -/
def assignment (o : EmitOptions) (x : String) : Node → Except EmitError Stmt
  | ⟨.binary .add l r, some .text⟩ => do
    let left ← expr o l
    let right ← expr o r
    return concatenation o x left right
  | value => do
    let e ← expr o value
    return .expr (if value.ty = some .text then copyText o (.var x) e else .assign (.var x) e)

/-- Whether the outermost construct is a comparison, which is an `int` in C. -/
def isComparison : Node → Bool
  | ⟨.binary op _ _, _⟩ => op.isComparison
  | _ => false

/-- The statement that prints a value. -/
def printing (o : EmitOptions) (value : Node) : Except EmitError Stmt :=
  match value.ty with
  | none => .error (.unexpectedStatement "a printed value")
  | some ty => do
    let e ← expr o value
    let argument := if isComparison value then .toLong e else e
    return .expr (.call (.library .printf) [.text (printFormat ty), argument])

/-- The statement that reads into a variable. -/
def reading (o : EmitOptions) (readTy : String → Option Ty) (x : String) : Except EmitError Stmt :=
  match readTy x with
  | none => .error (.unknownReadTarget x)
  | some ty =>
    let target : Expr := if ty = .text then .name (.var x) else .addressOf (.var x)
    .ok (.expr (.call (.library .scanf) [.text (scanFormat o ty), target]))

/-- The statement that leaves a function, which returns a value of type `result`. -/
def returning (o : EmitOptions) (result : Option Ty) (value : Node) : Except EmitError Stmt := do
  let e ← expr o value
  return .ret (if result = some .text then copyText o .result e else e)

/-- The statement that carries an expression out for its effect. -/
def evaluation (o : EmitOptions) (n : Node) : Except EmitError (List Stmt) := do
  let e ← expr o n
  return [.expr e]

mutual

/-- The statements in C for a tree. -/
def stmt (o : EmitOptions) (readTy : String → Option Ty) (result : Option Ty) : Node → Except EmitError (List Stmt)
  | ⟨.declare _, _⟩ | ⟨.function .., _⟩ => .ok []
  | ⟨.assign x v, _⟩ => do
    let s ← assignment o x v
    return [s]
  | ⟨.print v, _⟩ => do
    let s ← printing o v
    return [s]
  | ⟨.read x, _⟩ => do
    let s ← reading o readTy x
    return [s]
  | ⟨.branch c a none, _⟩ => do
    let test ← condition o c
    let consequent ← stmt o readTy result a
    return [.branch test consequent none]
  | ⟨.branch c a (some b), _⟩ => do
    let test ← condition o c
    let consequent ← stmt o readTy result a
    let alternative ← stmt o readTy result b
    return [.branch test consequent (some alternative)]
  | ⟨.loop c b, _⟩ => do
    let test ← condition o c
    let body ← stmt o readTy result b
    return [.loop test body]
  | ⟨.count i c u b, _⟩ => do
    let init ← stmt o readTy result i
    let test ← condition o c
    let body ← stmt o readTy result b
    let update ← stmt o readTy result u
    return init ++ [.loop test (body ++ update)]
  | ⟨.block ss, _⟩ => stmts o readTy result ss
  | ⟨.ret v, _⟩ => do
    let s ← returning o result v
    return [s]
  | ⟨.int v, ty⟩ => evaluation o ⟨.int v, ty⟩
  | ⟨.float v, ty⟩ => evaluation o ⟨.float v, ty⟩
  | ⟨.text s, ty⟩ => evaluation o ⟨.text s, ty⟩
  | ⟨.var x, ty⟩ => evaluation o ⟨.var x, ty⟩
  | ⟨.binary op l r, ty⟩ => evaluation o ⟨.binary op l r, ty⟩
  | ⟨.call f args, ty⟩ => evaluation o ⟨.call f args, ty⟩

/-- The statements in C for trees in sequence. -/
def stmts (o : EmitOptions) (readTy : String → Option Ty) (result : Option Ty) :
    List Node → Except EmitError (List Stmt)
  | [] => .ok []
  | n :: ns => do
    let first ← stmt o readTy result n
    let rest ← stmts o readTy result ns
    return first ++ rest

end

end ImpC.Emit
