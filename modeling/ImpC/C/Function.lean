import ImpC.C.Stmt

/-!
# Functions in C

A function is a header line, its body one level deeper, and a closing brace. The functions of a program, `main`, and the
helper routines are all of this form.
-/

namespace ImpC.C

/-- A parameter of a function. -/
structure Param where
  ty : DeclTy
  name : Name
  deriving DecidableEq, Repr, Inhabited

/-- A parameter as the header of a function declares it. -/
def Param.toText (p : Param) : String := p.ty.declare p.name.toText

/-- A function. -/
structure Function where
  /-- Whether the function is kept to its file. -/
  isStatic : Bool
  returns : DeclTy
  name : Name
  params : List Param
  body : List Stmt
  deriving Repr

namespace Function

/-- The parameters between the parentheses of the header. -/
def paramsText : List Param → String
  | [] => "void"
  | params => ", ".intercalate (params.map Param.toText)

/-- The line that opens a function. -/
def header (f : Function) : String :=
  (if f.isStatic then "static " else "") ++ f.returns.declare f.name.toText ++
    "(" ++ paramsText f.params ++ ") \x7b"

/-- The lines of a function. -/
def lines (f : Function) : List Line :=
  ⟨0, f.header⟩ :: Stmt.linesAll 1 f.body ++ [⟨0, "\x7d"⟩]

/-- The text of a function, each line ended by a line feed. -/
def toText (width : Nat) (f : Function) : String := String.join (f.lines.map (·.indented width ++ "\n"))

end Function

/-- The function in which a program starts; it reports success at its end. -/
def mainFunction (body : List Stmt) : Function := ⟨false, .int, .main, [], body ++ [.ret (.size 0)]⟩

end ImpC.C
