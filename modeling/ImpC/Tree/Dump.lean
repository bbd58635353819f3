import ImpC.Decimal.Layout
import ImpC.Text.Quoted
import ImpC.Tree.Basic

/-!
# The outline of a tree

`Node.dump` writes a tree as an outline: one line for each node, in the order of the program text, indented by two
spaces for each level, with what the node itself holds (`Construct.label`) and its static type.
-/

namespace ImpC

/-- What the construct itself holds, its parts apart. -/
def Construct.label {α : Type} : Construct α → String
  | int v => "Int: " ++ toString v.toInt
  | float v => "Float: " ++ v.toText
  | text s => "Text: " ++ Text.quoted s
  | var x => "Var: " ++ x
  | binary op _ _ => "Binary: " ++ op.symbol
  | assign x _ => "Assign: " ++ x
  | call f _ => "Call: " ++ f
  | print _ => "Print"
  | read x => "Read: " ++ x
  | declare v => "Declare: " ++ v.ty.keyword ++ " " ++ v.name
  | branch .. => "If"
  | loop .. => "While"
  | count .. => "For"
  | block _ => "Block"
  | function f _ _ _ => "FunctionDef: " ++ f
  | ret _ => "Return"

namespace Node

/-- The line of a node: its indentation, its label and its static type. -/
def outlineLine (depth : Nat) (label : String) (ty : Option Ty) : String :=
  let type := match ty with
    | some t => " : " ++ t.keyword
    | none => ""
  .ofList (List.replicate (2 * depth) ' ') ++ label ++ type ++ "\n"

mutual

/-- The lines of a tree that stands at the given depth. -/
def outline (depth : Nat) : Node → List String
  | ⟨c, ty⟩ => outlineLine depth c.label ty :: outlineParts (depth + 1) c

/-- The lines of the parts of a construct. -/
def outlineParts (depth : Nat) : Construct Node → List String
  | .int _ | .float _ | .text _ | .var _ | .read _ | .declare _ => []
  | .binary _ l r => outline depth l ++ outline depth r
  | .assign _ v => outline depth v
  | .call _ args => outlineAll depth args
  | .print v => outline depth v
  | .branch c a none => outline depth c ++ outline depth a
  | .branch c a (some b) => outline depth c ++ outline depth a ++ outline depth b
  | .loop c b => outline depth c ++ outline depth b
  | .count i c u b => outline depth i ++ outline depth c ++ outline depth u ++ outline depth b
  | .block ss => outlineAll depth ss
  | .function _ ps b r => outlineAll depth ps ++ outline depth b ++ outline depth r
  | .ret v => outline depth v

/-- The lines of trees that stand side by side. -/
def outlineAll (depth : Nat) : List Node → List String
  | [] => []
  | n :: ns => outline depth n ++ outlineAll depth ns

end

/-- The outline of a tree. -/
def dump (n : Node) : String := String.join (n.outline 0)

end Node

end ImpC
