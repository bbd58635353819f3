import ImpC.C.Program
import ImpC.Emit.Stmt
import ImpC.Env

/-!
# Emitting programs

A tree and its environment become a program in C. Every variable of the environment is written at file scope, and
every function that a call can mean: of several with one name, the first. The tree itself is the body of `main`.

How a type is spelled depends on where it stands: a text is an array of characters where it is stored, and a pointer
where it is passed or returned. A function that returns a text does so through a buffer of its caller, which is its
first parameter. A text that is passed in is copied to a local buffer on entry (`entryCopies`), so that the caller's is
never written to.
-/

namespace ImpC.Emit

/-- The spelling of a type where a value is passed or returned. -/
def declTy : Ty → C.DeclTy
  | .int => .long
  | .float => .double
  | .text => .chars

/-- A variable at file scope. -/
def global (o : EmitOptions) : Variable → C.Global
  | ⟨x, .int⟩ => .long (.var x)
  | ⟨x, .float⟩ => .double (.var x)
  | ⟨x, .text⟩ => .buffer (.var x) o.textCapacity

/-- A parameter of the program as one of the emitted function. A text arrives under a name of its own. -/
def param : Variable → C.Param
  | ⟨x, .int⟩ => ⟨.long, .var x⟩
  | ⟨x, .float⟩ => ⟨.double, .var x⟩
  | ⟨x, .text⟩ => ⟨.constChars, .argument x⟩

/-- The parameters of an emitted function, with the caller's buffer for a text result in front. -/
def params (returnTy : Ty) (vars : List Variable) : List C.Param :=
  if returnTy = .text then ⟨.chars, .result⟩ :: vars.map param else vars.map param

/-- The local buffers of the text parameters, each filled with a copy of the argument. -/
def entryCopies (o : EmitOptions) : List Variable → List C.Stmt
  | [] => []
  | ⟨x, .text⟩ :: rest =>
    .buffer (.var x) o.textCapacity ::
      .expr (.call (.helper .textCopy) [.name (.var x), .name (.argument x), .sizeOf (.var x)]) ::
      entryCopies o rest
  | ⟨_, .int⟩ :: rest | ⟨_, .float⟩ :: rest => entryCopies o rest

/-- The function in C for a registered function. -/
def function (o : EmitOptions) (readTy : String → Option Ty) (f : Function) : Except EmitError C.Function := do
  let body ← stmt o readTy (some f.returnTy) f.body
  let result ← stmt o readTy (some f.returnTy) f.result
  return ⟨false, declTy f.returnTy, .function f.name, params f.returnTy f.params,
    entryCopies o f.params ++ body ++ result⟩

/-- The functions in C for registered functions, in their order. -/
def functions (o : EmitOptions) (readTy : String → Option Ty) : List Function → Except EmitError (List C.Function)
  | [] => .ok []
  | f :: rest => do
    let first ← function o readTy f
    let rest ← functions o readTy rest
    return first :: rest

/-- The program in C for a tree and its environment. -/
def program (o : EmitOptions) (env : Env) (root : Node) : Except EmitError C.Program := do
  let functions ← functions o env.variableTy? env.funs.firsts
  let main ← stmt o env.variableTy? none root
  return ⟨env.vars.toList.map (global o), functions, C.mainFunction main⟩

/-- The text of the program in C for a tree and its environment. -/
def programText (o : EmitOptions) (env : Env) (root : Node) : Except EmitError String := do
  let p ← program o env root
  return p.toText o.indentWidth

end ImpC.Emit
