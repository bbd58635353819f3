import ImpC.C.Function

/-!
# Definitions of the helper routines

The helpers as functions. `rt_text_copy` copies at most one character less than the capacity and ends the copy;
`rt_text_concat` copies one text and then, behind it, another into what is left of the buffer. The guards test the divisor
and stop the program with a message if it is zero.
-/

namespace ImpC.C

/-- A parameter or variable of a helper as an expression. -/
abbrev Expr.inner (x : String) : Expr := .name (.inner x)

namespace Helper

/-- Copies a text to a place of the given capacity and gives the place back. -/
def textCopyFunction : Function where
  isStatic := true
  returns := .chars
  name := .helper .textCopy
  params := [⟨.chars, .inner "dst"⟩, ⟨.constChars, .inner "src"⟩, ⟨.size, .inner "cap"⟩]
  body :=
    [.declare .size (.inner "len") (some (.call (.library .strlen) [.inner "src"])),
     .branch (.binary .ge (.inner "len") (.inner "cap"))
       [.expr (.assign (.inner "len") (.binary .sub (.inner "cap") (.size 1)))] none,
     .expr (.call (.library .memmove) [.inner "dst", .inner "src", .inner "len"]),
     .store (.inner "dst") (.inner "len") .nul,
     .ret (.inner "dst")]

/-- Puts two texts together in a buffer of the given capacity and gives the buffer back. -/
def textConcatFunction : Function where
  isStatic := true
  returns := .chars
  name := .helper .textConcat
  params :=
    [⟨.chars, .inner "buf"⟩, ⟨.size, .inner "cap"⟩, ⟨.constChars, .inner "left"⟩, ⟨.constChars, .inner "right"⟩]
  body :=
    [.declare .size (.inner "used") none,
     .expr (.call (.helper .textCopy) [.inner "buf", .inner "left", .inner "cap"]),
     .expr (.assign (.inner "used") (.call (.library .strlen) [.inner "buf"])),
     .expr (.call (.helper .textCopy)
       [.binary .add (.inner "buf") (.inner "used"), .inner "right", .binary .sub (.inner "cap") (.inner "used")]),
     .ret (.inner "buf")]

/-- An operation on numbers that stops the program with a message when the right operand is zero. -/
def guardFunction (h : Helper) (ty : DeclTy) (zero : Expr) (operation : String) (value : Expr) : Function where
  isStatic := true
  returns := ty
  name := .helper h
  params := [⟨ty, .inner "left"⟩, ⟨ty, .inner "right"⟩]
  body :=
    [.branch (.binary .eq (.inner "right") zero)
       [.expr (.call (.library .fprintf)
          [.name (.library .stderr), .text ("runtime error: " ++ operation ++ " by zero\n")]),
        .expr (.call (.library .exit) [.name (.library .exitFailure)])] none,
     .ret value]

/-- The helper as a function. -/
def function : Helper → Function
  | textCopy => textCopyFunction
  | textConcat => textConcatFunction
  | divInt => guardFunction .divInt .long (.size 0) "division" (.binary .div (.inner "left") (.inner "right"))
  | modInt => guardFunction .modInt .long (.size 0) "modulo" (.binary .mod (.inner "left") (.inner "right"))
  | divFloat =>
    guardFunction .divFloat .double (.double ⟨0⟩) "division" (.binary .div (.inner "left") (.inner "right"))
  | modFloat =>
    guardFunction .modFloat .double (.double ⟨0⟩) "modulo" (.call (.library .fmod) [.inner "left", .inner "right"])

/-- The text of the definition, with four spaces for each level and no line feed at its end. -/
def definition (h : Helper) : String := "\n".intercalate (h.function.lines.map (·.indented 4))

/-- The helpers that a definition calls are those that are required along with it. -/
theorem contains_requireAll_body (h k : Helper) :
    (Stmt.requireAll .empty h.function.body).contains k = h.calls.contains k := by
  cases h <;> cases k <;> rfl

end Helper

/-- The definitions a program needs. -/
def Support.definitions (s : Support) : List String := s.required.map Helper.definition

end ImpC.C
