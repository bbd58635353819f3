import ImpC.C.Expr

/-!
# Statements in C

A statement is written on lines of its own. A `Line` keeps its nesting depth and its text apart; the width of a level
is chosen when a line is rendered. The lines inside braces are one level deeper than the lines that open and close them.
-/

namespace ImpC.C

/-- The types in declarations. -/
inductive DeclTy where
  | int
  | long
  | double
  | size
  | chars
  | constChars
  deriving DecidableEq, Repr, Inhabited

/-- A name declared with a type. -/
def DeclTy.declare (ty : DeclTy) (name : String) : String :=
  match ty with
  | int => "int " ++ name
  | long => "long long " ++ name
  | double => "double " ++ name
  | size => "size_t " ++ name
  | chars => "char *" ++ name
  | constChars => "const char *" ++ name

/-- A statement. -/
inductive Stmt where
  /-- An expression carried out for its effect. -/
  | expr (e : Expr)
  /-- Leaves the function with a value. -/
  | ret (e : Expr)
  /-- Declares a local buffer. -/
  | buffer (n : Name) (capacity : Nat)
  /-- Declares a local variable, with or without a first value. -/
  | declare (ty : DeclTy) (n : Name) (value : Option Expr)
  /-- Stores a character in a buffer. -/
  | store (n : Name) (index value : Expr)
  /-- A branch, with or without an alternative. -/
  | branch (condition : Expr) (consequent : List Stmt) (alternative : Option (List Stmt))
  /-- A loop that tests its condition before each round. -/
  | loop (condition : Expr) (body : List Stmt)
  /-- Statements in a scope of their own. -/
  | block (body : List Stmt)
  deriving Repr

/-- A line of an emitted program. -/
structure Line where
  /-- The number of braces that are open around the line. -/
  depth : Nat
  /-- The text without its indentation. -/
  text : String
  deriving DecidableEq, Repr, Inhabited

/-- The line as it is written, with `width` spaces for each level. -/
def Line.indented (width : Nat) (l : Line) : String := .ofList (List.replicate (l.depth * width) ' ') ++ l.text

namespace Stmt

mutual

/-- The lines of a statement at the given depth. -/
def lines (depth : Nat) : Stmt → List Line
  | expr e => [⟨depth, e.toText ++ ";"⟩]
  | ret e => [⟨depth, "return " ++ e.toText ++ ";"⟩]
  | buffer n capacity => [⟨depth, "char " ++ n.toText ++ "[" ++ toString capacity ++ "];"⟩]
  | declare ty n none => [⟨depth, ty.declare n.toText ++ ";"⟩]
  | declare ty n (some e) => [⟨depth, ty.declare n.toText ++ " = " ++ e.toText ++ ";"⟩]
  | store n i e => [⟨depth, n.toText ++ "[" ++ i.toText ++ "] = " ++ e.toText ++ ";"⟩]
  | branch c a none =>
    ⟨depth, "if (" ++ c.toText ++ ") \x7b"⟩ :: linesAll (depth + 1) a ++ [⟨depth, "\x7d"⟩]
  | branch c a (some b) =>
    ⟨depth, "if (" ++ c.toText ++ ") \x7b"⟩ :: linesAll (depth + 1) a ++
      ⟨depth, "\x7d else \x7b"⟩ :: linesAll (depth + 1) b ++ [⟨depth, "\x7d"⟩]
  | loop c b =>
    ⟨depth, "while (" ++ c.toText ++ ") \x7b"⟩ :: linesAll (depth + 1) b ++ [⟨depth, "\x7d"⟩]
  | block b => ⟨depth, "\x7b"⟩ :: linesAll (depth + 1) b ++ [⟨depth, "\x7d"⟩]

/-- The lines of statements in sequence. -/
def linesAll (depth : Nat) : List Stmt → List Line
  | [] => []
  | s :: ss => lines depth s ++ linesAll depth ss

end

mutual

/-- Requires what a statement needs. -/
def require (s : Support) : Stmt → Support
  | expr e => e.require s
  | ret e => e.require s
  | buffer .. => s
  | declare _ _ none => s
  | declare _ _ (some e) => e.require s
  | store _ i e => e.require (i.require s)
  | branch c a none => requireAll (c.require s) a
  | branch c a (some b) => requireAll (requireAll (c.require s) a) b
  | loop c b => requireAll (c.require s) b
  | block b => requireAll s b

/-- Requires what statements in sequence need. -/
def requireAll (s : Support) : List Stmt → Support
  | [] => s
  | t :: ts => requireAll (require s t) ts

end

end Stmt

end ImpC.C
