import ImpC.Registry
import ImpC.Tree.Basic

/-!
# Environments

What a program has declared so far: its variables and its functions. There is one scope. A variable keeps the type of its
first declaration, and later declarations of the name add nothing. Every definition of a function is kept, and calls see
the first one of the name. The two tables do not know of each other, so a variable and a function may share a name.
-/

namespace ImpC

/-- A registered function. Its result is the statement that leaves it with a value. -/
structure Function where
  name : String
  params : List Variable
  returnTy : Ty
  body : Node
  result : Node
  deriving Repr

/-- The variables and functions declared so far. -/
structure Env where
  vars : Registry Variable Variable.name
  funs : Registry Function Function.name

namespace Env

/-- Nothing is declared. -/
def empty : Env := ⟨.empty, .empty⟩

instance : Inhabited Env := ⟨empty⟩

variable (env : Env)

/-! ### Variables -/

/-- Whether the name is declared as a variable. -/
def hasVariable (name : String) : Bool := env.vars.contains name

/-- The type a variable was first declared with. -/
def variableTy? (name : String) : Option Ty := (env.vars.find? name).map (·.ty)

/-- Declares a variable unless its name is declared already, and tells whether it did. -/
def declareVariable (v : Variable) : Bool × Env :=
  if env.hasVariable v.name then (false, env) else (true, { env with vars := env.vars.push v })

/-! ### Functions -/

/-- Whether a function of this name is registered. -/
def hasFunction (name : String) : Bool := env.funs.contains name

/-- The function that calls of this name see. -/
def function? (name : String) : Option Function := env.funs.find? name

/-- The body of the function that calls of this name see. -/
def functionBody? (name : String) : Option Node := (env.function? name).map (·.body)

/-- Registers a function behind those of the same name. -/
def registerFunction (f : Function) : Env := { env with funs := env.funs.push f }

/-! ### The tables after a declaration -/

@[simp] theorem vars_empty : empty.vars.toList = [] := rfl

@[simp] theorem funs_empty : empty.funs.toList = [] := rfl

theorem vars_declareVariable (v : Variable) :
    (env.declareVariable v).2.vars.toList =
      if env.hasVariable v.name then env.vars.toList else env.vars.toList ++ [v] := by
  unfold declareVariable
  split <;> simp

@[simp] theorem funs_declareVariable (v : Variable) : (env.declareVariable v).2.funs = env.funs := by
  unfold declareVariable
  split <;> rfl

@[simp] theorem vars_registerFunction (f : Function) : (env.registerFunction f).vars = env.vars := rfl

@[simp] theorem funs_registerFunction (f : Function) :
    (env.registerFunction f).funs.toList = env.funs.toList ++ [f] := by
  simp [registerFunction]

end Env

end ImpC
