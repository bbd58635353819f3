import ImpC.C.Expr
import ImpC.Emit.Error
import ImpC.Emit.Options
import ImpC.Tree.Basic

/-!
# Emitting expressions

Each expression of the language becomes one expression in C. Arithmetic and comparison of numbers are C's own. Division and
remainder go through a helper that looks at the divisor. Texts are compared by `strcmp`, concatenated in a fresh buffer,
assigned by a copy, and returned from a call through a fresh buffer that is its first argument.

The static types at hand decide which form is taken: the type of the node itself, except that a comparison goes by the
type of its left operand.
-/

namespace ImpC.Emit

open C (Expr)

/-- The operation `op` of type `ty` on emitted operands, the left one of type `leftTy`. -/
def operation (o : EmitOptions) (op : BinOp) (ty leftTy : Option Ty) (l r : Expr) : Expr :=
  match op with
  | .add =>
    if ty = some .text then
      .call (.helper .textConcat) [.buffer o.concatCapacity, .size o.concatCapacity, l, r]
    else .binary .add l r
  | .div => .call (.helper (if ty = some .float then .divFloat else .divInt)) [l, r]
  | .mod => .call (.helper (if ty = some .float then .modFloat else .modInt)) [l, r]
  | op =>
    if op.isComparison && leftTy = some .text then .binary op (.call (.library .strcmp) [l, r]) (.size 0)
    else .binary op l r

/-- Copies a text to a place that holds as much as a variable. -/
def copyText (o : EmitOptions) (target : C.Name) (value : Expr) : Expr :=
  .call (.helper .textCopy) [.name target, value, .size o.textCapacity]

mutual

/-- The expression in C for a tree. -/
def expr (o : EmitOptions) : Node → Except EmitError Expr
  | ⟨.int v, _⟩ => .ok (.long v)
  | ⟨.float v, _⟩ => .ok (.double v)
  | ⟨.text s, _⟩ => .ok (.text s)
  | ⟨.var x, _⟩ => .ok (.name (.var x))
  | ⟨.binary op l r, ty⟩ => do
    let left ← expr o l
    let right ← expr o r
    return operation o op ty l.ty left right
  | ⟨.assign x v, ty⟩ => do
    let value ← expr o v
    return if ty = some .text then copyText o (.var x) value else .assign (.var x) value
  | ⟨.call f args, ty⟩ => do
    let args ← exprs o args
    return .call (.function f) (if ty = some .text then .buffer o.textCapacity :: args else args)
  | ⟨.print _, _⟩ | ⟨.read _, _⟩ | ⟨.declare _, _⟩ | ⟨.branch .., _⟩ | ⟨.loop .., _⟩ | ⟨.count .., _⟩
  | ⟨.block _, _⟩ | ⟨.function .., _⟩ | ⟨.ret _, _⟩ => .error (.unexpectedStatement "an expression")

/-- The expressions in C for trees, from left to right. -/
def exprs (o : EmitOptions) : List Node → Except EmitError (List Expr)
  | [] => .ok []
  | n :: ns => do
    let e ← expr o n
    let es ← exprs o ns
    return e :: es

end

/-- The expression in C that decides a branch or a loop. A number holds if it is not zero, a text if it is not empty. -/
def condition (o : EmitOptions) (n : Node) : Except EmitError Expr := do
  let e ← expr o n
  return if n.ty = some .text then .binary .ne (.first e) .nul else e

end ImpC.Emit
