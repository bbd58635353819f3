import ImpC.Compile
import ImpC.Proofs.Build.Typing
import ImpC.Proofs.Registry
import ImpC.Sample

/-!
# What was built can be emitted

Emission fails in three places only: at a statement where a value is needed, at a printed value without a type, and at a
variable that is read and not declared. `Emit.Emittable` describes the trees that hold none of these, and such a tree is
emitted (`Emit.exists_stmt`). An expression is emitted as soon as there are only expressions in it (`Emit.exists_expr`).

Trees that a builder gave out follow the typing rules (`Session.Run.sound`), with or without validated calls, and the
rules leave no room for the three failures (`Node.Everywhere.emittable`). The variables that are read are looked up once
more at the end, in an environment that has only grown since. So building is the only stage at which a program that uses
its builder alone can fail.
-/

namespace ImpC

variable {calls : Bool} {env : Env} {n : Node}

/-- There are only expressions in the tree. -/
def Node.IsPure (n : Node) : Prop := n.Everywhere (·.isExpression = true)

/-- An expression that follows the typing rules is made of expressions. -/
theorem Node.Everywhere.isPure (h : n.Everywhere (Node.Rule calls env)) (hn : n.isExpression = true) : n.IsPure := by
  induction n using Node.induction with
  | mk c ty ih =>
    refine Node.everywhere_iff.2 ⟨hn, fun m hm => ih m hm (h.part hm) ?_⟩
    -- every part of an expression stands where a value is needed
    cases h.top with
    | binary hl hr =>
      obtain rfl | rfl : m = _ ∨ m = _ := by simpa [Construct.parts] using hm
      · exact hl.isExpression
      · exact hr.isExpression
    | assign _ hv =>
      obtain rfl := List.mem_singleton.1 hm
      exact hv.isExpression
    | call hargs =>
      obtain ⟨t, ht⟩ := hargs m hm
      exact ht.isExpression
    | int | float | text | var => exact absurd hm List.not_mem_nil
    | print | read | declare | branch | loop | count | block | function | ret => cases hn

/-- A part that needs a value has one that can be emitted. -/
theorem Node.HasValue.isPure {ty : Ty} (h : n.HasValue ty) (hn : n.Everywhere (Node.Rule calls env)) : n.IsPure :=
  hn.isPure h.isExpression

namespace Emit

open C (Expr Stmt)

variable {o : EmitOptions} {readTy : String → Option Ty}

/-- The tree can be emitted as a statement, where `readTy` gives the types of the variables that are read. -/
inductive Emittable (readTy : String → Option Ty) : Node → Prop where
  | declare (v : Variable) (ty : Option Ty) : Emittable readTy ⟨.declare v, ty⟩
  | function (f : String) (ps : List Node) (b r : Node) (ty : Option Ty) : Emittable readTy ⟨.function f ps b r, ty⟩
  | print {v : Node} {t : Ty} (ht : v.ty = some t) (hv : v.IsPure) (ty : Option Ty) : Emittable readTy ⟨.print v, ty⟩
  | read {x : String} {t : Ty} (hx : readTy x = some t) (ty : Option Ty) : Emittable readTy ⟨.read x, ty⟩
  | branch {c a : Node} {b : Option Node} (hc : c.IsPure) (ha : Emittable readTy a)
      (hb : ∀ m ∈ b, Emittable readTy m) (ty : Option Ty) : Emittable readTy ⟨.branch c a b, ty⟩
  | loop {c b : Node} (hc : c.IsPure) (hb : Emittable readTy b) (ty : Option Ty) : Emittable readTy ⟨.loop c b, ty⟩
  | count {i c u b : Node} (hi : Emittable readTy i) (hc : c.IsPure) (hu : Emittable readTy u)
      (hb : Emittable readTy b) (ty : Option Ty) : Emittable readTy ⟨.count i c u b, ty⟩
  | block {ss : List Node} (hss : ∀ m ∈ ss, Emittable readTy m) (ty : Option Ty) : Emittable readTy ⟨.block ss, ty⟩
  | ret {v : Node} (hv : v.IsPure) (ty : Option Ty) : Emittable readTy ⟨.ret v, ty⟩
  /-- An expression that is carried out for its effect. -/
  | effect {n : Node} (hn : n.IsPure) : Emittable readTy n

/-! ### Expressions -/

theorem exists_exprs {ns : List Node} (h : ∀ n ∈ ns, ∃ e, expr o n = .ok e) : ∃ es, exprs o ns = .ok es := by
  induction ns with
  | nil => exact ⟨[], rfl⟩
  | cons n ns ih =>
    obtain ⟨⟨e, he⟩, h⟩ := List.forall_mem_cons.1 h
    obtain ⟨es, hes⟩ := ih h
    refine ⟨e :: es, ?_⟩
    rw [exprs, he, hes]
    rfl

/-- **Expressions are emitted.** -/
theorem exists_expr (o : EmitOptions) (h : n.IsPure) : ∃ e, expr o n = .ok e := by
  induction n using Node.induction with
  | mk c ty ih =>
    have hparts : ∀ m ∈ c.parts, ∃ e, expr o m = .ok e := fun m hm => ih m hm (h.part hm)
    have htop := h.top
    cases c with
    | int v => exact ⟨_, rfl⟩
    | float v => exact ⟨_, rfl⟩
    | text v => exact ⟨_, rfl⟩
    | var x => exact ⟨_, rfl⟩
    | binary op l r =>
      obtain ⟨left, hl⟩ := hparts l (by simp [Construct.parts])
      obtain ⟨right, hr⟩ := hparts r (by simp [Construct.parts])
      refine ⟨operation o op ty l.ty left right, ?_⟩
      rw [expr, hl, hr]
      rfl
    | assign x v =>
      obtain ⟨e, he⟩ := hparts v (by simp [Construct.parts])
      rw [expr, he]
      exact ⟨_, rfl⟩
    | call f args =>
      obtain ⟨es, hes⟩ : ∃ es, exprs o args = .ok es := exists_exprs hparts
      rw [expr, hes]
      exact ⟨_, rfl⟩
    -- what is left are statements
    | print | read | declare | branch | loop | count | block | function | ret => cases htop

theorem exists_condition (o : EmitOptions) (h : n.IsPure) : ∃ e, condition o n = .ok e := by
  obtain ⟨e, he⟩ := exists_expr o h
  unfold condition
  rw [he]
  exact ⟨_, rfl⟩

/-! ### Statements -/

theorem exists_assignment (o : EmitOptions) (x : String) (h : n.IsPure) : ∃ s, assignment o x n = .ok s := by
  unfold assignment
  split
  · next l r =>
    obtain ⟨left, hl⟩ := exists_expr o (h.part (m := l) (by simp [Construct.parts]))
    obtain ⟨right, hr⟩ := exists_expr o (h.part (m := r) (by simp [Construct.parts]))
    rw [hl, hr]
    exact ⟨_, rfl⟩
  · obtain ⟨e, he⟩ := exists_expr o h
    rw [he]
    exact ⟨_, rfl⟩

theorem exists_evaluation (o : EmitOptions) (h : n.IsPure) : ∃ ss, evaluation o n = .ok ss := by
  obtain ⟨e, he⟩ := exists_expr o h
  unfold evaluation
  rw [he]
  exact ⟨_, rfl⟩

theorem exists_stmts {result : Option Ty} {ns : List Node} (h : ∀ n ∈ ns, ∃ ss, stmt o readTy result n = .ok ss) :
    ∃ ss, stmts o readTy result ns = .ok ss := by
  induction ns with
  | nil => exact ⟨[], rfl⟩
  | cons n ns ih =>
    obtain ⟨⟨first, hfirst⟩, h⟩ := List.forall_mem_cons.1 h
    obtain ⟨rest, hrest⟩ := ih h
    refine ⟨first ++ rest, ?_⟩
    rw [stmts, hfirst, hrest]
    rfl

/-- An expression is emitted as a statement, an assignment by a form of its own. -/
theorem exists_stmt_of_isPure (o : EmitOptions) (readTy : String → Option Ty) (result : Option Ty) (h : n.IsPure) :
    ∃ ss, stmt o readTy result n = .ok ss := by
  have htop := h.top
  obtain ⟨c, ty⟩ := n
  cases c with
  | assign x v =>
    obtain ⟨s, hs⟩ := exists_assignment o x (h.part (m := v) (List.mem_singleton.2 rfl))
    refine ⟨[s], ?_⟩
    rw [stmt, hs]
    rfl
  | int | float | text | var | binary | call => exact exists_evaluation o h
  | print | read | declare | branch | loop | count | block | function | ret => cases htop

/-- **Statements are emitted.** The induction is over the reasons why the tree can be emitted. -/
theorem exists_stmt (o : EmitOptions) (result : Option Ty) (h : Emittable readTy n) :
    ∃ ss, stmt o readTy result n = .ok ss := by
  induction h with
  | declare v ty => exact ⟨[], rfl⟩
  | function f ps b r ty => exact ⟨[], rfl⟩
  | print ht hv ty =>
    -- the conversion depends on the type of the value, which has to be known
    obtain ⟨e, he⟩ := exists_expr o hv
    rw [stmt, printing, ht]
    simp only [he]
    exact ⟨_, rfl⟩
  | read hx ty =>
    rw [stmt, reading, hx]
    exact ⟨_, rfl⟩
  | @branch c a b hc ha hb ty iha ihb =>
    obtain ⟨test, htest⟩ := exists_condition o hc
    obtain ⟨consequent, ha⟩ := iha
    cases b with
    | none =>
      rw [stmt, htest, ha]
      exact ⟨_, rfl⟩
    | some b =>
      obtain ⟨alternative, hb⟩ := ihb b rfl
      rw [stmt, htest, ha, hb]
      exact ⟨_, rfl⟩
  | loop hc hb ty ihb =>
    obtain ⟨test, htest⟩ := exists_condition o hc
    obtain ⟨body, hb⟩ := ihb
    rw [stmt, htest, hb]
    exact ⟨_, rfl⟩
  | count hi hc hu hb ty ihi ihu ihb =>
    obtain ⟨init, hi⟩ := ihi
    obtain ⟨test, htest⟩ := exists_condition o hc
    obtain ⟨update, hu⟩ := ihu
    obtain ⟨body, hb⟩ := ihb
    rw [stmt, hi, htest, hb, hu]
    exact ⟨_, rfl⟩
  | block hss ty ih =>
    rw [stmt]
    exact exists_stmts ih
  | ret hv ty =>
    obtain ⟨e, he⟩ := exists_expr o hv
    rw [stmt, returning, he]
    exact ⟨_, rfl⟩
  | effect hn => exact exists_stmt_of_isPure o readTy result hn

/-! ### Programs -/

theorem exists_function (o : EmitOptions) {f : Function} (hbody : Emittable readTy f.body)
    (hresult : Emittable readTy f.result) : ∃ c, function o readTy f = .ok c := by
  obtain ⟨body, hb⟩ := exists_stmt o (some f.returnTy) hbody
  obtain ⟨result, hr⟩ := exists_stmt o (some f.returnTy) hresult
  unfold function
  rw [hb, hr]
  exact ⟨_, rfl⟩

theorem exists_functions (o : EmitOptions) {fs : List Function}
    (h : ∀ f ∈ fs, Emittable readTy f.body ∧ Emittable readTy f.result) : ∃ cs, functions o readTy fs = .ok cs := by
  induction fs with
  | nil => exact ⟨[], rfl⟩
  | cons f fs ih =>
    obtain ⟨⟨hbody, hresult⟩, h⟩ := List.forall_mem_cons.1 h
    obtain ⟨first, hfirst⟩ := exists_function o hbody hresult
    obtain ⟨rest, hrest⟩ := ih h
    refine ⟨first :: rest, ?_⟩
    rw [functions, hfirst, hrest]
    rfl

theorem exists_program (o : EmitOptions) {root : Node} (hroot : Emittable env.variableTy? root)
    (h : ∀ f ∈ env.funs.firsts, Emittable env.variableTy? f.body ∧ Emittable env.variableTy? f.result) :
    ∃ p, program o env root = .ok p := by
  obtain ⟨cs, hcs⟩ := exists_functions o h
  obtain ⟨main, hmain⟩ := exists_stmt o none hroot
  unfold program
  rw [hcs, hmain]
  exact ⟨_, rfl⟩

end Emit

/-! ### Built programs -/

/-- **What follows the typing rules can be emitted**, also if calls are not validated. -/
theorem Node.Everywhere.emittable (h : n.Everywhere (Node.Rule calls env)) : Emit.Emittable env.variableTy? n := by
  induction n using Node.induction with
  | mk c ty ih =>
    have hpart : ∀ m ∈ c.parts, Emit.Emittable env.variableTy? m := fun m hm => ih m hm (h.part hm)
    -- each rule gives the values that the statement needs, and the induction the statements in it
    cases h.top with
    | int | float | text | var | binary | assign | call => exact .effect (h.isPure rfl)
    | print hv => exact .print hv.ty_eq (hv.isPure (h.part (List.mem_singleton.2 rfl))) _
    | read hx => exact .read hx _
    | declare => exact .declare _ _
    | @branch c a b _ hc =>
      refine .branch (hc.isPure (h.part (List.mem_cons_self ..))) (hpart a ?_) (fun m hm => hpart m ?_) _
      · simp [Construct.parts]
      · simp [Construct.parts, Option.mem_def.1 hm]
    | @loop c b _ hc =>
      exact .loop (hc.isPure (h.part (List.mem_cons_self ..))) (hpart b (by simp [Construct.parts])) _
    | @count i c u b _ _ _ _ hc _ =>
      refine .count (hpart i ?_) (hc.isPure (h.part ?_)) (hpart u ?_) (hpart b ?_) _ <;> simp [Construct.parts]
    | block ss => exact .block hpart _
    | function => exact .function _ _ _ _ _
    | ret hv => exact .ret (hv.isPure (h.part (List.mem_singleton.2 rfl))) _

/-- The trees that are emitted: the functions that a call can mean, and the root. -/
def Env.emittedTrees (env : Env) (root : Node) : List Node :=
  env.funs.firsts.flatMap (fun g => [g.body, g.result]) ++ [root]

theorem Env.mem_emittedTrees {env : Env} {root n : Node} :
    n ∈ env.emittedTrees root ↔ (∃ g ∈ env.funs.firsts, n = g.body ∨ n = g.result) ∨ n = root := by
  simp [emittedTrees]

/-- On a builder that validates calls, all emitted trees are well typed in the environment they are emitted in. -/
theorem Session.Run.wellTyped_emittedTrees {options : BuildOptions} {s : Session} {root : Node}
    (hv : options.validateCalls = true) (h : Run options .start s) (hroot : root ∈ s.nodes)
    (hn : n ∈ s.env.emittedTrees root) : n.WellTyped s.env := by
  have hsound : s.Sound true := hv ▸ h.sound
  obtain ⟨g, hg, rfl | rfl⟩ | rfl := Env.mem_emittedTrees.1 hn
  · exact (hsound.functions g (Registry.mem_of_mem_firsts hg)).body
  · exact (hsound.functions g (Registry.mem_of_mem_firsts hg)).result
  · exact hsound.nodes _ hroot

/-- The functions that a run has registered can be emitted. Their bodies were built in smaller environments. -/
theorem Session.Run.emittable_functions {options : BuildOptions} {s : Session} (h : Run options .start s) :
    ∀ f ∈ s.env.funs.firsts, Emit.Emittable s.env.variableTy? f.body ∧ Emit.Emittable s.env.variableTy? f.result := by
  intro f hf
  have hsound := h.sound.functions f (Registry.mem_of_mem_firsts hf)
  exact ⟨hsound.body.emittable, hsound.result.emittable⟩

/-- What a run has arrived at can be emitted, whichever tree is taken for the root. -/
theorem Session.Run.exists_program {options : BuildOptions} {s : Session} (h : Run options .start s) {root : Node}
    (hroot : root ∈ s.nodes) (o : EmitOptions) : ∃ p, Emit.program o s.env root = .ok p :=
  Emit.exists_program o (h.sound.nodes root hroot).emittable h.emittable_functions

end ImpC
