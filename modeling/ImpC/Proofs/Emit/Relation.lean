import ImpC.Emit.Program
import ImpC.Proofs.Build.Step
import ImpC.Proofs.Tree.Parts

/-!
# What is emitted for a tree

The emitting functions stop at the first tree they have no code for, and so every statement about emitted code begins by
taking their successful runs apart. This is done here once. `Emit.EmitsExpr o n e` says that `e` is the expression for
the tree `n`, and `Emit.EmitsStmts o readTy result n ss` that `ss` are the statements for it, with one rule for each form
of code. The rules are those of the functions (`Emit.expr_eq_ok_iff`, `Emit.emitsStmts_of_stmt`), and a property of all
emitted code is an induction over them.

A program is put together in the same way, with one function for each first entry of the table (`Emit.function_eq_ok`,
`Emit.program_eq_ok`).
-/

namespace ImpC.Emit

open C (Expr Stmt)

variable {o : EmitOptions} {readTy : String → Option Ty} {result : Option Ty} {n : Node}

/-! ### Expressions -/

/-- `e` is the expression for the tree `n`. -/
inductive EmitsExpr (o : EmitOptions) : Node → Expr → Prop where
  | int (v : Int64) (ty : Option Ty) : EmitsExpr o ⟨.int v, ty⟩ (.long v)
  | float (x : Binary64) (ty : Option Ty) : EmitsExpr o ⟨.float x, ty⟩ (.double x)
  | text (s : String) (ty : Option Ty) : EmitsExpr o ⟨.text s, ty⟩ (.text s)
  | var (x : String) (ty : Option Ty) : EmitsExpr o ⟨.var x, ty⟩ (.name (.var x))
  | binary (op : BinOp) (ty : Option Ty) {l r : Node} {left right : Expr} (hl : EmitsExpr o l left)
      (hr : EmitsExpr o r right) : EmitsExpr o ⟨.binary op l r, ty⟩ (operation o op ty l.ty left right)
  | assign (x : String) (ty : Option Ty) {v : Node} {value : Expr} (hv : EmitsExpr o v value) :
      EmitsExpr o ⟨.assign x v, ty⟩ (if ty = some .text then copyText o (.var x) value else .assign (.var x) value)
  /-- The arguments are given together with their expressions. -/
  | call (f : String) (ty : Option Ty) (args : List (Node × Expr)) (hargs : ∀ a ∈ args, EmitsExpr o a.1 a.2) :
      EmitsExpr o ⟨.call f (args.map Prod.fst), ty⟩
        (.call (.function f)
          (if ty = some .text then .buffer o.textCapacity :: args.map Prod.snd else args.map Prod.snd))

/-- The expressions for several trees are those of the trees one by one. -/
theorem exprs_eq_ok_iff {ns : List Node} {es : List Expr} :
    exprs o ns = .ok es ↔
      ∃ args : List (Node × Expr), args.map Prod.fst = ns ∧ args.map Prod.snd = es ∧
        ∀ a ∈ args, expr o a.1 = .ok a.2 := by
  constructor
  · intro h
    induction ns generalizing es with
    | nil =>
      cases h
      exact ⟨[], rfl, rfl, nofun⟩
    | cons n ns ih =>
      obtain ⟨e, he, h⟩ := bind_eq_ok_iff.1 h
      obtain ⟨es', hes, h⟩ := bind_eq_ok_iff.1 h
      cases h
      obtain ⟨args, rfl, rfl, hargs⟩ := ih hes
      exact ⟨(n, e) :: args, rfl, rfl, List.forall_mem_cons.2 ⟨he, hargs⟩⟩
  · rintro ⟨args, rfl, rfl, hargs⟩
    induction args with
    | nil => rfl
    | cons a args ih =>
      obtain ⟨ha, hargs⟩ := List.forall_mem_cons.1 hargs
      rw [List.map_cons, exprs, ha, ih hargs]
      rfl

theorem emitsExpr_of_expr {e : Expr} (h : expr o n = .ok e) : EmitsExpr o n e := by
  induction n using Node.induction generalizing e with
  | mk c ty ih =>
    cases c with
    | int v =>
      cases h
      exact .int v ty
    | float x =>
      cases h
      exact .float x ty
    | text s =>
      cases h
      exact .text s ty
    | var x =>
      cases h
      exact .var x ty
    | binary op l r =>
      obtain ⟨left, hl, h⟩ := bind_eq_ok_iff.1 h
      obtain ⟨right, hr, h⟩ := bind_eq_ok_iff.1 h
      cases h
      exact .binary op ty (ih l (by simp [Construct.parts]) hl) (ih r (by simp [Construct.parts]) hr)
    | assign x v =>
      obtain ⟨value, hv, h⟩ := bind_eq_ok_iff.1 h
      cases h
      exact .assign x ty (ih v (List.mem_singleton.2 rfl) hv)
    | call f ns =>
      obtain ⟨es, hes, h⟩ := bind_eq_ok_iff.1 h
      cases h
      obtain ⟨args, rfl, rfl, hargs⟩ := exprs_eq_ok_iff.1 hes
      exact .call f ty args fun a ha => ih a.1 (List.mem_map_of_mem ha) (hargs a ha)
    | print | read | declare | branch | loop | count | block | function | ret => cases h

/-- **The rules for expressions are those of the emitting function.** -/
theorem expr_eq_ok_iff {e : Expr} : expr o n = .ok e ↔ EmitsExpr o n e := by
  refine ⟨emitsExpr_of_expr, fun h => ?_⟩
  induction h with
  | int | float | text | var => rfl
  | binary op ty hl hr ihl ihr =>
    rw [expr, ihl, ihr]
    rfl
  | assign x ty hv ih =>
    rw [expr, ih]
    rfl
  | call f ty args hargs ih =>
    rw [expr, exprs_eq_ok_iff.2 ⟨args, rfl, rfl, ih⟩]
    rfl

/-! ### Statements -/

/-- The test for a tree whose expression is `e`. -/
def test (n : Node) (e : Expr) : Expr := if n.ty = some .text then .binary .ne (.first e) .nul else e

/-- `ss` are the statements for the tree `n`. -/
inductive EmitsStmts (o : EmitOptions) (readTy : String → Option Ty) (result : Option Ty) : Node → List Stmt → Prop where
  | declare (v : Variable) (ty : Option Ty) : EmitsStmts o readTy result ⟨.declare v, ty⟩ []
  | function (f : String) (ps : List Node) (b r : Node) (ty : Option Ty) :
      EmitsStmts o readTy result ⟨.function f ps b r, ty⟩ []
  /-- A concatenation is put together where it is assigned. -/
  | concatenate (x : String) (ty : Option Ty) {l r : Node} {left right : Expr} (hl : EmitsExpr o l left)
      (hr : EmitsExpr o r right) :
      EmitsStmts o readTy result ⟨.assign x ⟨.binary .add l r, some .text⟩, ty⟩ [concatenation o x left right]
  | assign (x : String) (ty : Option Ty) {v : Node} {value : Expr} (hv : EmitsExpr o v value)
      (hconcat : v.isConcat = false) :
      EmitsStmts o readTy result ⟨.assign x v, ty⟩
        [.expr (if v.ty = some .text then copyText o (.var x) value else .assign (.var x) value)]
  | print (ty : Option Ty) {v : Node} {t : Ty} {value : Expr} (ht : v.ty = some t) (hv : EmitsExpr o v value) :
      EmitsStmts o readTy result ⟨.print v, ty⟩
        [.expr (.call (.library .printf)
          [.text (printFormat t), if isComparison v then .toLong value else value])]
  | read (ty : Option Ty) {x : String} {t : Ty} (ht : readTy x = some t) :
      EmitsStmts o readTy result ⟨.read x, ty⟩
        [.expr (.call (.library .scanf)
          [.text (scanFormat o t), if t = .text then .name (.var x) else .addressOf (.var x)])]
  | branch (ty : Option Ty) {c a : Node} {e : Expr} {as : List Stmt} (hc : EmitsExpr o c e)
      (ha : EmitsStmts o readTy result a as) :
      EmitsStmts o readTy result ⟨.branch c a none, ty⟩ [.branch (test c e) as none]
  | choice (ty : Option Ty) {c a b : Node} {e : Expr} {as bs : List Stmt} (hc : EmitsExpr o c e)
      (ha : EmitsStmts o readTy result a as) (hb : EmitsStmts o readTy result b bs) :
      EmitsStmts o readTy result ⟨.branch c a (some b), ty⟩ [.branch (test c e) as (some bs)]
  | loop (ty : Option Ty) {c b : Node} {e : Expr} {bs : List Stmt} (hc : EmitsExpr o c e)
      (hb : EmitsStmts o readTy result b bs) :
      EmitsStmts o readTy result ⟨.loop c b, ty⟩ [.loop (test c e) bs]
  | count (ty : Option Ty) {i c u b : Node} {e : Expr} {is us bs : List Stmt} (hi : EmitsStmts o readTy result i is)
      (hc : EmitsExpr o c e) (hb : EmitsStmts o readTy result b bs) (hu : EmitsStmts o readTy result u us) :
      EmitsStmts o readTy result ⟨.count i c u b, ty⟩ (is ++ [.loop (test c e) (bs ++ us)])
  /-- The statements of a block are given together with their code. -/
  | block (ty : Option Ty) (parts : List (Node × List Stmt)) (hparts : ∀ p ∈ parts, EmitsStmts o readTy result p.1 p.2) :
      EmitsStmts o readTy result ⟨.block (parts.map Prod.fst), ty⟩ (parts.flatMap Prod.snd)
  | ret (ty : Option Ty) {v : Node} {value : Expr} (hv : EmitsExpr o v value) :
      EmitsStmts o readTy result ⟨.ret v, ty⟩
        [.ret (if result = some .text then copyText o .result value else value)]
  /-- An expression other than an assignment, carried out for its effect. -/
  | evaluate {n : Node} {e : Expr} (hn : EmitsExpr o n e) (hassign : ∀ x v ty, n ≠ ⟨.assign x v, ty⟩) :
      EmitsStmts o readTy result n [.expr e]

theorem condition_eq_ok {e : Expr} (h : condition o n = .ok e) : ∃ value, EmitsExpr o n value ∧ e = test n value := by
  obtain ⟨value, hv, h⟩ := bind_eq_ok_iff.1 h
  cases h
  exact ⟨value, emitsExpr_of_expr hv, rfl⟩

theorem emitsStmts_of_assignment {x : String} {v : Node} {s : Stmt} (ty : Option Ty) (h : assignment o x v = .ok s) :
    EmitsStmts o readTy result ⟨.assign x v, ty⟩ [s] := by
  unfold assignment at h
  split at h
  · obtain ⟨left, hl, h⟩ := bind_eq_ok_iff.1 h
    obtain ⟨right, hr, h⟩ := bind_eq_ok_iff.1 h
    cases h
    exact .concatenate x ty (emitsExpr_of_expr hl) (emitsExpr_of_expr hr)
  · next hconcat =>
    obtain ⟨value, hv, h⟩ := bind_eq_ok_iff.1 h
    cases h
    refine .assign x ty (emitsExpr_of_expr hv) ?_
    unfold Node.isConcat
    split
    · exact absurd rfl (hconcat _ _)
    · rfl

theorem emitsStmts_of_printing {v : Node} {s : Stmt} (ty : Option Ty) (h : printing o v = .ok s) :
    EmitsStmts o readTy result ⟨.print v, ty⟩ [s] := by
  unfold printing at h
  split at h
  · cases h
  · next ht =>
    obtain ⟨value, hv, h⟩ := bind_eq_ok_iff.1 h
    cases h
    exact .print ty ht (emitsExpr_of_expr hv)

theorem emitsStmts_of_reading {x : String} {s : Stmt} (ty : Option Ty) (h : reading o readTy x = .ok s) :
    EmitsStmts o readTy result ⟨.read x, ty⟩ [s] := by
  unfold reading at h
  split at h
  · cases h
  · next ht =>
    cases h
    exact .read ty ht

theorem emitsStmts_of_evaluation {ss : List Stmt} (h : evaluation o n = .ok ss)
    (hassign : ∀ x v ty, n ≠ ⟨.assign x v, ty⟩) : EmitsStmts o readTy result n ss := by
  obtain ⟨e, he, h⟩ := bind_eq_ok_iff.1 h
  cases h
  exact .evaluate (emitsExpr_of_expr he) hassign

/-- The statements for several trees are those of the trees one after another. -/
theorem stmts_eq_ok {ns : List Node} {ss : List Stmt} (h : stmts o readTy result ns = .ok ss) :
    ∃ parts : List (Node × List Stmt), parts.map Prod.fst = ns ∧ parts.flatMap Prod.snd = ss ∧
      ∀ p ∈ parts, stmt o readTy result p.1 = .ok p.2 := by
  induction ns generalizing ss with
  | nil =>
    cases h
    exact ⟨[], rfl, rfl, nofun⟩
  | cons n ns ih =>
    obtain ⟨first, hfirst, h⟩ := bind_eq_ok_iff.1 h
    obtain ⟨rest, hrest, h⟩ := bind_eq_ok_iff.1 h
    cases h
    obtain ⟨parts, rfl, rfl, hparts⟩ := ih hrest
    exact ⟨(n, first) :: parts, rfl, rfl, List.forall_mem_cons.2 ⟨hfirst, hparts⟩⟩

/-- **The statements that are emitted for a tree follow the rules.** -/
theorem emitsStmts_of_stmt {ss : List Stmt} (h : stmt o readTy result n = .ok ss) :
    EmitsStmts o readTy result n ss := by
  induction n using Node.induction generalizing ss with
  | mk c ty ih =>
    cases c with
    | declare v =>
      cases h
      exact .declare v ty
    | function f ps b r =>
      cases h
      exact .function f ps b r ty
    | int | float | text | var | binary | call => exact emitsStmts_of_evaluation h nofun
    | assign x v =>
      obtain ⟨s, hs, h⟩ := bind_eq_ok_iff.1 h
      cases h
      exact emitsStmts_of_assignment ty hs
    | print v =>
      obtain ⟨s, hs, h⟩ := bind_eq_ok_iff.1 h
      cases h
      exact emitsStmts_of_printing ty hs
    | read x =>
      obtain ⟨s, hs, h⟩ := bind_eq_ok_iff.1 h
      cases h
      exact emitsStmts_of_reading ty hs
    | ret v =>
      obtain ⟨s, hs, h⟩ := bind_eq_ok_iff.1 h
      obtain ⟨value, hv, hs⟩ := bind_eq_ok_iff.1 hs
      cases hs
      cases h
      exact .ret ty (emitsExpr_of_expr hv)
    | branch c a b =>
      cases b with
      | none =>
        obtain ⟨e, hc, h⟩ := bind_eq_ok_iff.1 h
        obtain ⟨as, ha, h⟩ := bind_eq_ok_iff.1 h
        cases h
        obtain ⟨value, hv, rfl⟩ := condition_eq_ok hc
        exact .branch ty hv (ih a (by simp [Construct.parts]) ha)
      | some b =>
        obtain ⟨e, hc, h⟩ := bind_eq_ok_iff.1 h
        obtain ⟨as, ha, h⟩ := bind_eq_ok_iff.1 h
        obtain ⟨bs, hb, h⟩ := bind_eq_ok_iff.1 h
        cases h
        obtain ⟨value, hv, rfl⟩ := condition_eq_ok hc
        exact .choice ty hv (ih a (by simp [Construct.parts]) ha) (ih b (by simp [Construct.parts]) hb)
    | loop c b =>
      obtain ⟨e, hc, h⟩ := bind_eq_ok_iff.1 h
      obtain ⟨bs, hb, h⟩ := bind_eq_ok_iff.1 h
      cases h
      obtain ⟨value, hv, rfl⟩ := condition_eq_ok hc
      exact .loop ty hv (ih b (by simp [Construct.parts]) hb)
    | count i c u b =>
      obtain ⟨is, hi, h⟩ := bind_eq_ok_iff.1 h
      obtain ⟨e, hc, h⟩ := bind_eq_ok_iff.1 h
      obtain ⟨bs, hb, h⟩ := bind_eq_ok_iff.1 h
      obtain ⟨us, hu, h⟩ := bind_eq_ok_iff.1 h
      cases h
      obtain ⟨value, hv, rfl⟩ := condition_eq_ok hc
      exact .count ty (ih i (by simp [Construct.parts]) hi) hv (ih b (by simp [Construct.parts]) hb)
        (ih u (by simp [Construct.parts]) hu)
    | block ns =>
      obtain ⟨parts, rfl, rfl, hparts⟩ := stmts_eq_ok h
      exact .block ty parts fun p hp => ih p.1 (List.mem_map_of_mem hp) (hparts p hp)

/-! ### Programs -/

theorem function_eq_ok {g : Function} {c : C.Function} (h : function o readTy g = .ok c) :
    ∃ body result, EmitsStmts o readTy (some g.returnTy) g.body body ∧
      EmitsStmts o readTy (some g.returnTy) g.result result ∧
      c = ⟨false, declTy g.returnTy, .function g.name, params g.returnTy g.params,
        entryCopies o g.params ++ body ++ result⟩ := by
  obtain ⟨body, hbody, h⟩ := bind_eq_ok_iff.1 h
  obtain ⟨result, hresult, h⟩ := bind_eq_ok_iff.1 h
  cases h
  exact ⟨body, result, emitsStmts_of_stmt hbody, emitsStmts_of_stmt hresult, rfl⟩

/-- Every emitted function is one of the functions it was emitted from. -/
theorem exists_of_mem_functions {fs : List Function} {cs : List C.Function} {c : C.Function}
    (h : functions o readTy fs = .ok cs) (hc : c ∈ cs) : ∃ g ∈ fs, function o readTy g = .ok c := by
  induction fs generalizing cs with
  | nil =>
    cases h
    exact absurd hc List.not_mem_nil
  | cons g fs ih =>
    obtain ⟨first, hfirst, h⟩ := bind_eq_ok_iff.1 h
    obtain ⟨rest, hrest, h⟩ := bind_eq_ok_iff.1 h
    cases h
    obtain rfl | hc := List.mem_cons.1 hc
    · exact ⟨g, List.mem_cons_self, hfirst⟩
    · obtain ⟨g', hg', hc⟩ := ih hrest hc
      exact ⟨g', List.mem_cons_of_mem _ hg', hc⟩

/-- **A program and what it was emitted from.** -/
theorem program_eq_ok {env : Env} {root : Node} {p : C.Program} (h : program o env root = .ok p) :
    ∃ cs main, functions o env.variableTy? env.funs.firsts = .ok cs ∧ EmitsStmts o env.variableTy? none root main ∧
      p = ⟨env.vars.toList.map (global o), cs, C.mainFunction main⟩ := by
  obtain ⟨cs, hcs, h⟩ := bind_eq_ok_iff.1 h
  obtain ⟨main, hmain, h⟩ := bind_eq_ok_iff.1 h
  cases h
  exact ⟨cs, main, hcs, emitsStmts_of_stmt hmain, rfl⟩

end ImpC.Emit
