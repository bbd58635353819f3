/-!
# Helper routines

The emitted program brings along the routines that C itself lacks: copies and concatenation of text that stay within a
buffer, and division and remainder that stop the program on a zero divisor. Only those that are needed are defined.

`Support` records what a program needs. Requiring a helper brings in the helpers its definition calls and the header it
uses (`Support.require`). Helpers are defined in the order of `Helper.all`, in which every helper stands behind those it
calls (`Support.required`).
-/

namespace ImpC.C

/-- The helper routines. -/
inductive Helper where
  | textCopy
  | textConcat
  | divInt
  | modInt
  | divFloat
  | modFloat
  deriving DecidableEq, Repr, Inhabited

namespace Helper

/-- Every helper, behind those it calls. -/
def all : List Helper := [textCopy, textConcat, divInt, modInt, divFloat, modFloat]

theorem mem_all (h : Helper) : h ∈ all := by cases h <;> decide

/-- The name of a helper in the emitted program. -/
def name : Helper → String
  | textCopy => "rt_text_copy"
  | textConcat => "rt_text_concat"
  | divInt => "rt_div_int"
  | modInt => "rt_mod_int"
  | divFloat => "rt_div_float"
  | modFloat => "rt_mod_float"

/-- The helpers that a helper calls. -/
def calls : Helper → List Helper
  | textConcat => [textCopy]
  | _ => []

/-- Whether the definition uses `math.h`. -/
def needsMath : Helper → Bool
  | modFloat => true
  | _ => false

end Helper

/-- The helpers and headers a program needs. -/
structure Support where
  /-- The helpers required. -/
  helpers : List Helper
  /-- Whether `math.h` is required. -/
  math : Bool
  deriving DecidableEq, Repr, Inhabited

namespace Support

/-- Nothing is required. -/
def empty : Support := ⟨[], false⟩

/-- Whether a helper is required. -/
def contains (s : Support) (h : Helper) : Bool := s.helpers.contains h

/-- Requires a helper, those it calls, and the header it uses. -/
def require (s : Support) (h : Helper) : Support := ⟨h :: h.calls ++ s.helpers, s.math || h.needsMath⟩

/-- Requires `math.h`. -/
def requireMath (s : Support) : Support := { s with math := true }

/-- The headers to include. -/
def includes (s : Support) : List String :=
  ["stdio.h", "stdlib.h", "string.h"] ++ if s.math then ["math.h"] else []

/-- The helpers to define, each once, in the order of their definitions. -/
def required (s : Support) : List Helper := Helper.all.filter s.contains

end Support

end ImpC.C
