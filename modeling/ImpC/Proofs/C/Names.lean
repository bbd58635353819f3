import ImpC.C.Function
import ImpC.Proofs.C.Token

/-!
# Names in their places

In emitted code names of variables and buffers stand where a value is used or stored, names of functions and routines where
something is called, and the names that come from the program are identifiers. `Expr.isNamed`, `Stmt.isNamed` and
`Function.isNamed` say so of all names in a piece of code. Code like this is divided into tokens as it is meant: no name
runs into what stands beside it.
-/

namespace ImpC.C

/-- The name is one of a value. -/
def Name.isValue : Name → Bool
  | .var x | .argument x => isIdentifier x
  | .result | .scratch => true
  | .function _ | .helper _ | .library _ | .inner _ | .main => false

/-- The name is one of a function of the program. -/
def Name.isFunction : Name → Bool
  | .function f => isIdentifier f
  | .main => true
  | .var _ | .argument _ | .helper _ | .library _ | .result | .scratch | .inner _ => false

/-- The name is one of something that can be called. -/
def Name.isCallee : Name → Bool
  | .helper _ | .library _ => true
  | f => f.isFunction

@[simp] theorem Name.isCallee_helper (h : Helper) : (helper h).isCallee = true := rfl

@[simp] theorem Name.isCallee_library (item : Library) : (library item).isCallee = true := rfl

mutual

/-- Names stand where they belong. -/
@[simp] def Expr.isNamed : Expr → Bool
  | .name n | .sizeOf n | .room n | .addressOf n => n.isValue
  | .long _ | .double _ | .text _ | .size _ | .nul | .buffer _ => true
  | .binary _ l r => l.isNamed && r.isNamed
  | .assign n e => n.isValue && e.isNamed
  | .call f args => f.isCallee && Expr.areNamed args
  | .first e | .toLong e => e.isNamed

/-- Names stand where they belong in several expressions. -/
@[simp] def Expr.areNamed : List Expr → Bool
  | [] => true
  | e :: es => e.isNamed && Expr.areNamed es

end

mutual

/-- Names stand where they belong in a statement. -/
@[simp] def Stmt.isNamed : Stmt → Bool
  | .expr e | .ret e => e.isNamed
  | .buffer n _ | .declare _ n none => n.isValue
  | .declare _ n (some e) => n.isValue && e.isNamed
  | .store n i e => n.isValue && (i.isNamed && e.isNamed)
  | .branch c a none => c.isNamed && Stmt.areNamed a
  | .branch c a (some b) => c.isNamed && (Stmt.areNamed a && Stmt.areNamed b)
  | .loop c b => c.isNamed && Stmt.areNamed b
  | .block b => Stmt.areNamed b

/-- Names stand where they belong in statements in sequence. -/
@[simp] def Stmt.areNamed : List Stmt → Bool
  | [] => true
  | s :: ss => s.isNamed && Stmt.areNamed ss

end

theorem Expr.areNamed_eq_all (es : List Expr) : areNamed es = es.all isNamed := by
  induction es with
  | nil => rfl
  | cons e es ih => rw [areNamed, ih, List.all_cons]

theorem Stmt.areNamed_eq_all (ss : List Stmt) : areNamed ss = ss.all isNamed := by
  induction ss with
  | nil => rfl
  | cons s ss ih => rw [areNamed, ih, List.all_cons]

@[simp] theorem Stmt.areNamed_append (ss ss' : List Stmt) : areNamed (ss ++ ss') = (areNamed ss && areNamed ss') := by
  rw [areNamed_eq_all, List.all_append, ← areNamed_eq_all, ← areNamed_eq_all]

/-- Names stand where they belong in a function. -/
def Function.isNamed (f : Function) : Bool :=
  f.name.isFunction && (f.params.all (·.name.isValue) && Stmt.areNamed f.body)

end ImpC.C
