import ImpC.BinOp
import ImpC.Binary64

/-!
# Syntax trees

`Construct α` is one layer of a program: a construct of the language whose parts are of type `α`. A `Node` is a
construct whose parts are nodes, together with the static type that was found for it, if it has one. Giving the layer a
name of its own lets the same constructs be filled with other parts: drafts that are yet to be checked, or
references to nodes that were built before.
-/

namespace ImpC

/-- A construct of the language over parts of type `α`. -/
inductive Construct (α : Type) where
  /-- An integer literal. -/
  | int (value : Int64)
  /-- A float literal. -/
  | float (value : Binary64)
  /-- A text literal. -/
  | text (value : String)
  /-- The value of a variable. -/
  | var (name : String)
  /-- A binary operation. -/
  | binary (op : BinOp) (left right : α)
  /-- An assignment, which is a statement and an expression. -/
  | assign (target : String) (value : α)
  /-- A call of a function. -/
  | call (name : String) (args : List α)
  /-- Prints a value on a line of its own. -/
  | print (value : α)
  /-- Reads a value into a variable. -/
  | read (name : String)
  /-- Declares a variable. -/
  | declare (declared : Variable)
  /-- A branch, with or without an alternative. -/
  | branch (condition consequent : α) (alternative : Option α)
  /-- A loop that tests its condition before each round. -/
  | loop (condition body : α)
  /-- A loop with a first step and a step after each round. -/
  | count (init condition update body : α)
  /-- Statements in sequence. -/
  | block (statements : List α)
  /-- The definition of a function. -/
  | function (name : String) (params : List α) (body result : α)
  /-- Leaves the function with a value. -/
  | ret (value : α)
  deriving Repr

/-- A syntax tree, with a static type where one was found. -/
inductive Node where
  | mk (construct : Construct Node) (ty : Option Ty)
  deriving Repr

namespace Construct

/-- The constructs that have a value. -/
def isExpression {α : Type} : Construct α → Bool
  | int _ | float _ | text _ | var _ | binary .. | assign .. | call .. => true
  | print _ | read _ | declare _ | branch .. | loop .. | count .. | block _ | function .. | ret _ => false

/-- Whether the construct leaves a function. -/
def isReturn {α : Type} : Construct α → Bool
  | ret _ => true
  | _ => false

end Construct

namespace Node

/-- The outermost construct of a tree. -/
def construct : Node → Construct Node
  | mk c _ => c

/-- The static type of a tree. -/
def ty : Node → Option Ty
  | mk _ t => t

@[simp] theorem construct_mk (c : Construct Node) (t : Option Ty) : (mk c t).construct = c := rfl

@[simp] theorem ty_mk (c : Construct Node) (t : Option Ty) : (mk c t).ty = t := rfl

@[simp] theorem mk_construct_ty (n : Node) : mk n.construct n.ty = n := by cases n; rfl

/-- Whether the tree is an expression. -/
def isExpression (n : Node) : Bool := n.construct.isExpression

/-- Whether the tree is the concatenation of two texts. -/
def isConcat : Node → Bool
  | ⟨.binary .add _ _, some .text⟩ => true
  | _ => false

end Node

end ImpC
