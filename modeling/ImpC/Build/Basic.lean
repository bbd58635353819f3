import ImpC.Build.Error
import ImpC.Env

/-!
# Building a program

A program is built one construct at a time, its parts first. Each construct is checked against the environment when it is
built and gets its static type (`Build.staticTy`); a declaration and the definition of a function also enter the
environment (`Build.build`). The first violation is the answer, and what was declared before it stays declared.

A function is registered once its own parts are built, so a call can only name a function that is complete, and none
can call itself.

`BuildM` is the building of a program as a computation: it reads the options, changes the environment, and may stop with an
error. `make` builds one construct in it.
-/

namespace ImpC

/-- What is checked beyond the types of expressions. -/
structure BuildOptions where
  /-- Calls are checked against the parameters of the function. -/
  validateCalls : Bool := true
  /-- A name must not be declared twice. -/
  rejectRedeclaration : Bool := false
  deriving DecidableEq, Repr

instance : Inhabited BuildOptions := ⟨{}⟩

namespace Build

/-! ### Operands -/

/-- The type of a part that has to have a value. -/
def operandTy (place : String) (n : Node) : Except BuildError Ty :=
  match n.ty with
  | some ty => if n.isExpression then .ok ty else .error (.notAnExpression place)
  | none => .error (.notAnExpression place)

/-- The types of the arguments of a call. -/
def argumentTys : List Node → Except BuildError (List Ty)
  | [] => .ok []
  | n :: rest => do
    let ty ← operandTy "a call argument" n
    let tys ← argumentTys rest
    return ty :: tys

/-! ### Names -/

/-- The type of a variable that has to be declared. -/
def variableTy (env : Env) (name : String) : Except BuildError Ty :=
  match env.variableTy? name with
  | some ty => .ok ty
  | none => .error (.undeclaredIdentifier name)

/-- Compares arguments with parameters one by one, from the given position on. -/
def matchArguments (name : String) (position : Nat) : List Variable → List Ty → Except BuildError Unit
  | param :: params, found :: rest =>
    if param.ty = found then matchArguments name (position + 1) params rest
    else .error (.argumentMismatch name position param.ty found)
  | _, _ => .ok ()

/-- Compares the arguments of a call with the parameters of the function: first their number, then their types. -/
def checkArguments (callee : Function) (found : List Ty) : Except BuildError Unit :=
  if callee.params.length = found.length then matchArguments callee.name 1 callee.params found
  else .error (.argumentCount callee.name callee.params.length found.length)

/-- The type of a call. Without validation it is taken as written, and a function that is not known gives an integer. -/
def callTy (options : BuildOptions) (env : Env) (name : String) (found : List Ty) : Except BuildError Ty :=
  match env.function? name with
  | some callee =>
    if options.validateCalls then do
      checkArguments callee found
      return callee.returnTy
    else .ok callee.returnTy
  | none => if options.validateCalls then .error (.undeclaredFunction name) else .ok .int

/-! ### Constructs -/

/-- Checks a construct against the environment and gives its static type, if it is one that has a type. -/
def staticTy (options : BuildOptions) (env : Env) : Construct Node → Except BuildError (Option Ty)
  | .int _ => .ok (some .int)
  | .float _ => .ok (some .float)
  | .text _ => .ok (some .text)
  | .var x => do
    let ty ← variableTy env x
    return some ty
  | .binary op l r => do
    let left ← operandTy "a left operand" l
    let right ← operandTy "a right operand" r
    match op.resultTy? left right with
    | some ty => return some ty
    | none => throw (.incompatibleOperands op left right)
  | .assign x v => do
    let expected ← variableTy env x
    let found ← operandTy "an assigned value" v
    if expected = found then return some expected else throw (.assignMismatch x expected found)
  | .call f args => do
    let found ← argumentTys args
    let ty ← callTy options env f found
    return some ty
  | .print v => do
    let ty ← operandTy "the printed value" v
    return some ty
  | .read x => do
    let _ ← variableTy env x
    return none
  | .declare v =>
    if options.rejectRedeclaration && env.hasVariable v.name then .error (.redeclaration v.name) else .ok none
  | .branch c _ _ => do
    let _ ← operandTy "an if condition" c
    return none
  | .loop c _ => do
    let _ ← operandTy "a while condition" c
    return none
  | .count i c u _ => do
    let _ ← operandTy "a for initializer" i
    let _ ← operandTy "a for condition" c
    let _ ← operandTy "a for update" u
    return none
  | .block _ => .ok none
  | .function f _ _ _ =>
    if options.rejectRedeclaration && env.hasFunction f then .error (.redeclaration f) else .ok none
  | .ret v => do
    let ty ← operandTy "a returned value" v
    return some ty

/-- Declares the parameters of a function, from the left up to the first one that is not a declaration. -/
def declareParams (function : String) (env : Env) : List Node → Except BuildError (List Variable) × Env
  | [] => (.ok [], env)
  | ⟨.declare v, _⟩ :: rest =>
    let (params, env) := declareParams function (env.declareVariable v).2 rest
    (params.map (v :: ·), env)
  | _ :: _ => (.error (.invalidParameter function), env)

/-- The statement that ends a function: one that returns stands as it is, an expression is returned. -/
def resultStatement (n : Node) : Except BuildError Node :=
  if n.construct.isReturn then .ok n
  else do
    let ty ← operandTy "a returned value" n
    return ⟨.ret n, some ty⟩

/-- Defines a function: its parameters are declared, and it is registered with the type its last statement returns. -/
def define (env : Env) (name : String) (params : List Node) (body result : Node) : Except BuildError Node × Env :=
  match declareParams name env params with
  | (.error e, env) => (.error e, env)
  | (.ok vars, env) =>
    match resultStatement result with
    | .error e => (.error e, env)
    | .ok result =>
      (.ok ⟨.function name params body result, none⟩,
        env.registerFunction ⟨name, vars, result.ty.getD .int, body, result⟩)

/-- Builds one construct. -/
def build (options : BuildOptions) (env : Env) (c : Construct Node) : Except BuildError Node × Env :=
  match staticTy options env c with
  | .error e => (.error e, env)
  | .ok ty =>
    match c with
    | .declare v => (.ok ⟨.declare v, ty⟩, (env.declareVariable v).2)
    | .function name params body result => define env name params body result
    | c => (.ok ⟨c, ty⟩, env)

end Build

/-! ### Building as a computation -/

/-- A computation that builds: it reads the options, changes the environment, and may stop with an error. -/
abbrev BuildM := ReaderT BuildOptions (ExceptT BuildError (StateM Env))

/-- Builds one construct. -/
def make (c : Construct Node) : BuildM Node := fun options => ExceptT.mk fun env => Build.build options env c

/-- Builds a binary operation whose operator is given by its token. -/
def makeBinary (token : String) (left right : Node) : BuildM Node :=
  match BinOp.ofSymbol? token with
  | some op => make (.binary op left right)
  | none => throw (.unknownOperator token)

/-- Carries a computation out, and gives the environment it leaves behind also where it stops with an error. -/
def BuildM.exec {α : Type} (options : BuildOptions) (env : Env) (m : BuildM α) : Except BuildError α × Env :=
  ((m.run options).run).run env

end ImpC
