import ImpC.C.Program

/-!
# The expressions in a piece of code

`Expr.subs` lists the expressions in an expression, at every depth and with itself in front, and `Stmt.subs` those in a
statement. What is said of all the calls, of all the names or of all the literals of a function is said of the members of
its list (`Function.subs`).
-/

namespace ImpC.C

mutual

/-- The expressions in an expression, itself in front. -/
def Expr.subs : Expr → List Expr
  | .name n => [.name n]
  | .long v => [.long v]
  | .double x => [.double x]
  | .text s => [.text s]
  | .size n => [.size n]
  | .nul => [.nul]
  | .buffer n => [.buffer n]
  | .binary op l r => .binary op l r :: (l.subs ++ r.subs)
  | .assign n e => .assign n e :: e.subs
  | .call f args => .call f args :: Expr.subsAll args
  | .first e => .first e :: e.subs
  | .toLong e => .toLong e :: e.subs
  | .sizeOf n => [.sizeOf n]
  | .room n => [.room n]
  | .addressOf n => [.addressOf n]

/-- The expressions in several expressions. -/
def Expr.subsAll : List Expr → List Expr
  | [] => []
  | e :: es => e.subs ++ Expr.subsAll es

end

mutual

/-- The expressions in a statement. -/
def Stmt.subs : Stmt → List Expr
  | .expr e | .ret e | .declare _ _ (some e) => e.subs
  | .buffer .. | .declare _ _ none => []
  | .store _ i e => i.subs ++ e.subs
  | .branch c a none => c.subs ++ Stmt.subsAll a
  | .branch c a (some b) => c.subs ++ Stmt.subsAll a ++ Stmt.subsAll b
  | .loop c b => c.subs ++ Stmt.subsAll b
  | .block b => Stmt.subsAll b

/-- The expressions in statements in sequence. -/
def Stmt.subsAll : List Stmt → List Expr
  | [] => []
  | s :: ss => s.subs ++ Stmt.subsAll ss

end

/-- The expressions in a function. -/
def Function.subs (f : Function) : List Expr := Stmt.subsAll f.body

theorem Expr.subsAll_eq_flatMap (es : List Expr) : Expr.subsAll es = es.flatMap Expr.subs := by
  induction es with
  | nil => rfl
  | cons e es ih => rw [subsAll, ih, List.flatMap_cons]

theorem Stmt.subsAll_eq_flatMap (ss : List Stmt) : Stmt.subsAll ss = ss.flatMap Stmt.subs := by
  induction ss with
  | nil => rfl
  | cons s ss ih => rw [subsAll, ih, List.flatMap_cons]

@[simp] theorem Stmt.subsAll_append (ss ts : List Stmt) : subsAll (ss ++ ts) = subsAll ss ++ subsAll ts := by
  rw [subsAll_eq_flatMap, List.flatMap_append, ← subsAll_eq_flatMap, ← subsAll_eq_flatMap]

@[simp] theorem Stmt.subsAll_singleton (s : Stmt) : subsAll [s] = s.subs := List.append_nil _

/-- Beside its body `main` holds the status that it returns. -/
@[simp] theorem subs_mainFunction (body : List Stmt) : (mainFunction body).subs = Stmt.subsAll body ++ [.size 0] := by
  simp [mainFunction, Function.subs, Stmt.subs, Expr.subs]

end ImpC.C
