import ImpC.Proofs.C.Shown
import ImpC.Proofs.Emit.Names

/-!
# Programs define what they call

An emitted program brings along routines and headers. `C.ExactRuntime` says that it brings what its code needs and nothing
else, where what the code needs is read off its tokens: every routine that is called is defined, once and behind those it
calls itself, and no other; and `math.h` is included for the remainder of floats and for the constants, and not otherwise.

Which routines the code calls is known from the trees alone. `Env.demands` lists what they ask for, tree by tree: the functions
that a call can mean with the copies of their text parameters, and the root. Entries of the table that no call can mean ask
for nothing, and neither do definitions of functions inside the trees. The needs of emitted code are those of the tree it
was emitted for, in the same order (`Emit.EmitsExpr.demands`, `Emit.EmitsStmts.demands`).
-/

namespace ImpC

/-! ### Exactly what is needed -/

namespace C

end C

open C (Demand)

/-! ### What trees ask for -/

/-- What an operation of the given type asks for. -/
def BinOp.demands : BinOp → Option Ty → List Demand
  | .add, some .text => [.helper .textConcat]
  | .div, some .float => [.helper .divFloat]
  | .div, _ => [.helper .divInt]
  | .mod, some .float => [.helper .modFloat]
  | .mod, _ => [.helper .modInt]
  | _, _ => []

/-- What storing a value of the given type asks for: a text is copied. -/
def storeDemands (ty : Option Ty) : List Demand := if ty = some .text then [.helper .textCopy] else []

mutual

/-- What a tree asks for where its value is used. -/
@[simp] def Node.demands : Node → List Demand
  | ⟨.float x, _⟩ => if C.needsMath x then [.constant] else []
  | ⟨.binary op l r, ty⟩ => op.demands ty ++ (l.demands ++ r.demands)
  | ⟨.assign _ v, ty⟩ => storeDemands ty ++ v.demands
  | ⟨.call _ ns, _⟩ => Node.demandsAll ns
  | ⟨.int _, _⟩ | ⟨.text _, _⟩ | ⟨.var _, _⟩ | ⟨.print _, _⟩ | ⟨.read _, _⟩ | ⟨.declare _, _⟩ | ⟨.branch .., _⟩
  | ⟨.loop .., _⟩ | ⟨.count .., _⟩ | ⟨.block _, _⟩ | ⟨.function .., _⟩ | ⟨.ret _, _⟩ => []

/-- What several trees ask for. -/
@[simp] def Node.demandsAll : List Node → List Demand
  | [] => []
  | n :: ns => n.demands ++ Node.demandsAll ns

end

mutual

/-- What a tree asks for as a statement of a function that returns the type `result`. A concatenation that is assigned
needs no routine of its own: one copy starts it and one stores it. -/
@[simp] def Node.codeDemands (result : Option Ty) : Node → List Demand
  | ⟨.declare _, _⟩ | ⟨.function .., _⟩ | ⟨.read _, _⟩ => []
  | ⟨.assign _ ⟨.binary .add l r, some .text⟩, _⟩ =>
    .helper .textCopy :: (l.demands ++ (r.demands ++ [.helper .textCopy]))
  | ⟨.assign _ v, _⟩ => storeDemands v.ty ++ v.demands
  | ⟨.print v, _⟩ => v.demands
  | ⟨.ret v, _⟩ => storeDemands result ++ v.demands
  | ⟨.branch c a none, _⟩ => c.demands ++ a.codeDemands result
  | ⟨.branch c a (some b), _⟩ => c.demands ++ a.codeDemands result ++ b.codeDemands result
  | ⟨.loop c b, _⟩ => c.demands ++ b.codeDemands result
  | ⟨.count i c u b, _⟩ => i.codeDemands result ++ (c.demands ++ (b.codeDemands result ++ u.codeDemands result))
  | ⟨.block ns, _⟩ => Node.codeDemandsAll result ns
  | ⟨.int v, ty⟩ => Node.demands ⟨.int v, ty⟩
  | ⟨.float x, ty⟩ => Node.demands ⟨.float x, ty⟩
  | ⟨.text s, ty⟩ => Node.demands ⟨.text s, ty⟩
  | ⟨.var x, ty⟩ => Node.demands ⟨.var x, ty⟩
  | ⟨.binary op l r, ty⟩ => Node.demands ⟨.binary op l r, ty⟩
  | ⟨.call f ns, ty⟩ => Node.demands ⟨.call f ns, ty⟩

/-- What trees ask for as statements in sequence. -/
@[simp] def Node.codeDemandsAll (result : Option Ty) : List Node → List Demand
  | [] => []
  | n :: ns => n.codeDemands result ++ Node.codeDemandsAll result ns

end

/-- What a function asks for, with the copies of its text parameters in front. -/
def Function.demands (g : Function) : List Demand :=
  g.params.flatMap (fun v => storeDemands (some v.ty)) ++ g.body.codeDemands (some g.returnTy) ++
    g.result.codeDemands (some g.returnTy)

/-- What a program asks for: the functions that a call can mean, and the root. -/
def Env.demands (env : Env) (root : Node) : List Demand :=
  env.funs.firsts.flatMap Function.demands ++ root.codeDemands none

/-- An assignment other than one of a concatenation. -/
theorem Node.codeDemands_assign {result : Option Ty} {x : String} {v : Node} {ty : Option Ty} (h : v.isConcat = false) :
    codeDemands result ⟨.assign x v, ty⟩ = storeDemands v.ty ++ v.demands := by
  rw [codeDemands]
  rintro l r rfl
  cases h

theorem Node.demandsAll_eq_flatMap (ns : List Node) : demandsAll ns = ns.flatMap demands := by
  induction ns with
  | nil => rfl
  | cons n ns ih => rw [demandsAll, ih, List.flatMap_cons]

theorem Node.codeDemandsAll_eq_flatMap (result : Option Ty) (ns : List Node) :
    codeDemandsAll result ns = ns.flatMap (codeDemands result) := by
  induction ns with
  | nil => rfl
  | cons n ns ih => rw [codeDemandsAll, ih, List.flatMap_cons]

namespace Emit

open C (Expr Stmt)

variable {o : EmitOptions} {readTy : String → Option Ty} {result : Option Ty} {n : Node} {e : Expr} {ss : List Stmt}

/-! ### Emitted code needs what its trees ask for -/

theorem demands_copyText (target : C.Name) (value : Expr) :
    (copyText o target value).demands = .helper .textCopy :: value.demands := by
  simp [copyText]

theorem demands_operation (op : BinOp) (ty leftTy : Option Ty) (l r : Expr) :
    (operation o op ty leftTy l r).demands = op.demands ty ++ (l.demands ++ r.demands) := by
  -- what an operation asks for depends on its type as far as the operator looks at it
  by_cases htext : ty = some .text
  · subst htext
    cases op <;> by_cases hleft : leftTy = some .text <;> simp [operation, BinOp.demands, BinOp.isComparison, hleft]
  by_cases hfloat : ty = some .float
  · subst hfloat
    cases op <;> by_cases hleft : leftTy = some .text <;> simp [operation, BinOp.demands, BinOp.isComparison, hleft]
  · cases op <;> by_cases hleft : leftTy = some .text <;>
      simp [operation, BinOp.demands, BinOp.isComparison, hleft, htext, hfloat]

/-- **The expression for a tree needs what the tree asks for.** -/
theorem EmitsExpr.demands (h : EmitsExpr o n e) : e.demands = n.demands := by
  induction h with
  | int | text | var => rfl
  | float x ty => rw [Expr.demands_double, Node.demands]
  | binary op ty hl hr ihl ihr => rw [demands_operation, ihl, ihr, Node.demands]
  | assign x ty hv ih =>
    rw [Node.demands, storeDemands, ← ih]
    split
    · exact demands_copyText _ _
    · rfl
  | call f ty args hargs ih =>
    have hargs : Expr.demandsAll (args.map Prod.snd) = Node.demandsAll (args.map Prod.fst) := by
      rw [Expr.demandsAll_eq_flatMap, Node.demandsAll_eq_flatMap, List.flatMap_map, List.flatMap_map, List.flatMap_def,
        List.map_congr_left ih, ← List.flatMap_def]
    rw [Node.demands, ← hargs]
    split <;> simp

theorem demands_test (n : Node) (e : Expr) : (test n e).demands = e.demands := by
  unfold test
  split <;> simp

/-- **The statements for a tree need what the tree asks for.** -/
theorem EmitsStmts.demands (h : EmitsStmts o readTy result n ss) : Stmt.demandsAll ss = n.codeDemands result := by
  induction h with
  | declare | function => rfl
  | concatenate x ty hl hr =>
    -- between the two copies the right operand is appended by a function of the library
    rw [Node.codeDemands, ← hl.demands, ← hr.demands]
    simp [concatenation, demands_copyText]
  | assign x ty hv hconcat =>
    rw [Node.codeDemands_assign hconcat, storeDemands, ← hv.demands]
    split <;> simp [demands_copyText]
  | print ty ht hv =>
    rw [Node.codeDemands, ← hv.demands]
    split <;> simp
  | read ty ht =>
    rw [Node.codeDemands]
    split <;> simp
  | branch ty hc ha iha => simp [demands_test, hc.demands, iha]
  | choice ty hc ha hb iha ihb => simp [demands_test, hc.demands, iha, ihb]
  | loop ty hc hb ihb => simp [demands_test, hc.demands, ihb]
  | count ty hi hc hb hu ihi ihb ihu => simp [demands_test, hc.demands, ihi, ihb, ihu]
  | block ty parts hparts ih =>
    rw [Node.codeDemands, Node.codeDemandsAll_eq_flatMap, List.flatMap_map, Stmt.demandsAll_flatMap, List.flatMap_def,
      List.map_congr_left ih, ← List.flatMap_def]
  | ret ty hv =>
    rw [Node.codeDemands, storeDemands, ← hv.demands]
    split <;> simp [demands_copyText]
  | evaluate hn hassign =>
    rw [Stmt.demandsAll_cons, Stmt.demandsAll_nil, List.append_nil, Stmt.demands_expr, hn.demands]
    cases hn with
    -- as a statement, an assignment goes by the type of its value and not by its own
    | assign x ty hv => exact absurd rfl (hassign _ _ _)
    | int | float | text | var | binary | call => rfl

/-! ### Functions and programs -/

/-- A function that copies a text and returns nothing of it. -/
def ignoring : Function :=
  ⟨"f", [⟨"t", .text⟩], .int, ⟨.block [], none⟩, ⟨.ret ⟨.int 0, some .int⟩, some .int⟩⟩

/-- A function of the same name, with a division. -/
def dividing : Function :=
  ⟨"f", [], .int, ⟨.block [], none⟩,
    ⟨.ret ⟨.binary .div ⟨.int 4, some .int⟩ ⟨.int 2, some .int⟩, some .int⟩, some .int⟩⟩

end Emit

end ImpC
