import ImpC.C.Definition

/-!
# Programs in C

`Program.toText` puts a program together: the headers, the helpers that its functions call, the variables, the
functions, and `main`. It includes and defines exactly what the code it contains needs, because that is read off the
code (`Program.support`).
-/

namespace ImpC.C

/-- A variable at file scope, where it starts as zero or as the empty text. -/
inductive Global where
  | long (name : Name)
  | double (name : Name)
  | buffer (name : Name) (capacity : Nat)
  deriving DecidableEq, Repr, Inhabited

/-- The declaration of a variable at file scope. -/
def Global.toText : Global → String
  | long n => "static " ++ DeclTy.long.declare n.toText ++ " = 0;"
  | double n => "static " ++ DeclTy.double.declare n.toText ++ " = 0.0;"
  | buffer n capacity => "static char " ++ n.toText ++ "[" ++ toString capacity ++ "] = \"\";"

/-- A program. Its last function is `main`. -/
structure Program where
  globals : List Global
  functions : List Function
  main : Function
  deriving Repr

namespace Program

/-- What the functions and `main` need. -/
def support (p : Program) : Support :=
  Stmt.requireAll (p.functions.foldl (fun s f => Stmt.requireAll s f.body) .empty) p.main.body

/-- The text of the variables at file scope, with an empty line behind them if there are any. -/
def globalsText : List Global → String
  | [] => ""
  | globals => String.join (globals.map (·.toText ++ "\n")) ++ "\n"

/-- The text of a program, with `width` spaces for each level. -/
def toText (width : Nat) (p : Program) : String :=
  String.join (p.support.includes.map fun header => "#include <" ++ header ++ ">\n") ++ "\n" ++
    String.join (p.support.definitions.map (· ++ "\n\n")) ++
    globalsText p.globals ++
    String.join (p.functions.map (·.toText width ++ "\n")) ++
    p.main.toText width

end Program

end ImpC.C
