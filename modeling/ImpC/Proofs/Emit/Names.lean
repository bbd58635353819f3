import ImpC.Proofs.C.Names
import ImpC.Proofs.Emit.Relation
import ImpC.Proofs.Emit.Totality

/-!
# Names in emitted code

If the names in a program are identifiers of C (`Env.Identifiers`), then so are all names in what is emitted for it, and each
stands in a place that fits it: names of variables and of the buffers that emission adds where a value is used, names of
functions where something is called (`Emit.isNamed_program`).
-/

namespace ImpC

/-- The name that a node itself uses. -/
def Node.usedName? : Node → Option String
  | ⟨.var x, _⟩ | ⟨.assign x _, _⟩ | ⟨.call x _, _⟩ | ⟨.read x, _⟩ => some x
  | _ => none

/-- All names used in the tree are identifiers of C. -/
def Node.UsesIdentifiers (n : Node) : Prop := n.Everywhere fun m => ∀ x ∈ m.usedName?, C.isIdentifier x = true

/-- The names in a program are identifiers of C: those of the functions that a call can mean and of their parameters, and
those that are used in the trees. -/
structure Env.Identifiers (env : Env) (root : Node) : Prop where
  functions : ∀ g ∈ env.funs.firsts, C.isIdentifier g.name = true ∧ ∀ v ∈ g.params, C.isIdentifier v.name = true
  trees : ∀ n ∈ env.emittedTrees root, n.UsesIdentifiers

namespace Emit

open C (Expr Stmt)

variable {o : EmitOptions} {readTy : String → Option Ty} {result : Option Ty} {n : Node} {e : Expr} {ss : List Stmt}

/-! ### Expressions and statements -/

theorem isNamed_copyText {target : C.Name} {value : Expr} (ht : target.isValue = true) (hv : value.isNamed = true) :
    (copyText o target value).isNamed = true := by
  simp [copyText, ht, hv]

/-- Storing in a variable, whether by a copy or by an assignment. -/
theorem isNamed_storing {x : String} {value : Expr} (hx : C.isIdentifier x = true) (hv : value.isNamed = true)
    (c : Prop) [Decidable c] : (if c then copyText o (.var x) value else .assign (.var x) value).isNamed = true := by
  split
  · exact isNamed_copyText hx hv
  · exact Bool.and_eq_true_iff.2 ⟨hx, hv⟩

theorem isNamed_operation (op : BinOp) (ty leftTy : Option Ty) {l r : Expr} (hl : l.isNamed = true)
    (hr : r.isNamed = true) : (operation o op ty leftTy l r).isNamed = true := by
  unfold operation
  split
  · split <;> simp [hl, hr]
  · simp [hl, hr]
  · simp [hl, hr]
  · split <;> simp [hl, hr]

/-- **The expression for a tree has names in their places**, if the tree uses identifiers. -/
theorem EmitsExpr.isNamed (h : EmitsExpr o n e) (hn : n.UsesIdentifiers) : e.isNamed = true := by
  induction h with
  | int | float | text => rfl
  | var x ty => exact hn.top x rfl
  | binary op ty hl hr ihl ihr =>
    exact isNamed_operation op ty _ (ihl (hn.part (by simp [Construct.parts]))) (ihr (hn.part (by simp [Construct.parts])))
  | assign x ty hv ih => exact isNamed_storing (hn.top x rfl) (ih (hn.part (List.mem_singleton.2 rfl))) _
  | call f ty args hargs ih =>
    have hf : (C.Name.function f).isCallee = true := hn.top f rfl
    have hargs : Expr.areNamed (args.map Prod.snd) = true := by
      rw [Expr.areNamed_eq_all, List.all_map, List.all_eq_true]
      exact fun a ha => ih a ha (hn.part (List.mem_map_of_mem ha))
    refine Bool.and_eq_true_iff.2 ⟨hf, ?_⟩
    split
    · exact hargs
    · exact hargs

theorem EmitsExpr.isNamed_test (h : EmitsExpr o n e) (hn : n.UsesIdentifiers) : (test n e).isNamed = true := by
  unfold test
  split
  · simpa using h.isNamed hn
  · exact h.isNamed hn

/-- A statement on its own. -/
theorem areNamed_singleton {s : Stmt} (h : s.isNamed = true) : Stmt.areNamed [s] = true := by
  rw [Stmt.areNamed, h]
  rfl

/-- **So do the statements for a tree.** -/
theorem EmitsStmts.areNamed (h : EmitsStmts o readTy result n ss) (hn : n.UsesIdentifiers) :
    Stmt.areNamed ss = true := by
  induction h with
  | declare | function => rfl
  | @concatenate x ty l r left right hl hr =>
    have hx : C.isIdentifier x = true := hn.top x rfl
    have hv := hn.part (List.mem_singleton.2 rfl)
    have hleft : left.isNamed = true := hl.isNamed (hv.part (by simp [Construct.parts]))
    have hright : right.isNamed = true := hr.isNamed (hv.part (by simp [Construct.parts]))
    have hcopy : (copyText o (.var x) (.name .scratch)).isNamed = true := isNamed_copyText hx rfl
    simp [concatenation, C.Name.isValue, hleft, hright, hcopy]
  | assign x ty hv hconcat =>
    have hvalue := hv.isNamed (hn.part (List.mem_singleton.2 rfl))
    exact areNamed_singleton (isNamed_storing (hn.top x rfl) hvalue _)
  | @print ty v t value ht hv =>
    have hvalue : value.isNamed = true := hv.isNamed (hn.part (List.mem_singleton.2 rfl))
    refine areNamed_singleton ?_
    split <;> simp [hvalue]
  | @read ty x t ht =>
    have hx : (C.Name.var x).isValue = true := hn.top x rfl
    refine areNamed_singleton ?_
    split <;> simp [hx]
  | branch ty hc ha iha =>
    have htest := hc.isNamed_test (hn.part (by simp [Construct.parts]))
    exact areNamed_singleton (Bool.and_eq_true_iff.2 ⟨htest, iha (hn.part (by simp [Construct.parts]))⟩)
  | choice ty hc ha hb iha ihb =>
    have htest := hc.isNamed_test (hn.part (by simp [Construct.parts]))
    have hparts := Bool.and_eq_true_iff.2
      ⟨iha (hn.part (by simp [Construct.parts])), ihb (hn.part (by simp [Construct.parts]))⟩
    exact areNamed_singleton (Bool.and_eq_true_iff.2 ⟨htest, hparts⟩)
  | loop ty hc hb ihb =>
    have htest := hc.isNamed_test (hn.part (by simp [Construct.parts]))
    exact areNamed_singleton (Bool.and_eq_true_iff.2 ⟨htest, ihb (hn.part (by simp [Construct.parts]))⟩)
  | count ty hi hc hb hu ihi ihb ihu =>
    have htest := hc.isNamed_test (hn.part (by simp [Construct.parts]))
    have hbody := Bool.and_eq_true_iff.2
      ⟨ihb (hn.part (by simp [Construct.parts])), ihu (hn.part (by simp [Construct.parts]))⟩
    rw [← Stmt.areNamed_append] at hbody
    rw [Stmt.areNamed_append, ihi (hn.part (by simp [Construct.parts]))]
    exact areNamed_singleton (Bool.and_eq_true_iff.2 ⟨htest, hbody⟩)
  | block ty parts hparts ih =>
    rw [Stmt.areNamed_eq_all, List.all_flatMap, List.all_eq_true]
    intro p hp
    rw [← Stmt.areNamed_eq_all]
    exact ih p hp (hn.part (List.mem_map_of_mem hp))
  | @ret ty v value hv =>
    have hvalue : value.isNamed = true := hv.isNamed (hn.part (List.mem_singleton.2 rfl))
    refine areNamed_singleton ?_
    split
    · exact isNamed_copyText rfl hvalue
    · exact hvalue
  | evaluate he hassign => exact areNamed_singleton (he.isNamed hn)

/-! ### Functions and programs -/

theorem areNamed_entryCopies {vars : List Variable} (h : ∀ v ∈ vars, C.isIdentifier v.name = true) :
    Stmt.areNamed (entryCopies o vars) = true := by
  induction vars with
  | nil => rfl
  | cons v vars ih =>
    obtain ⟨x, ty⟩ := v
    obtain ⟨hx, hvars⟩ := List.forall_mem_cons.1 h
    cases ty with
    | int | float => exact ih hvars
    | text =>
      have hx : (C.Name.var x).isValue = true ∧ (C.Name.argument x).isValue = true := ⟨hx, hx⟩
      simp [entryCopies, hx, ih hvars]

theorem isValue_param {v : Variable} (h : C.isIdentifier v.name = true) : (param v).name.isValue = true := by
  obtain ⟨x, ty⟩ := v
  cases ty <;> exact h

theorem isNamed_function {g : Function} {c : C.Function} (h : function o readTy g = .ok c)
    (hname : C.isIdentifier g.name = true) (hparams : ∀ v ∈ g.params, C.isIdentifier v.name = true)
    (hbody : g.body.UsesIdentifiers) (hresult : g.result.UsesIdentifiers) : c.isNamed = true := by
  obtain ⟨body, result, hemits, hemits', rfl⟩ := function_eq_ok h
  have hcode : Stmt.areNamed (entryCopies o g.params ++ body ++ result) = true := by
    rw [Stmt.areNamed_append, Stmt.areNamed_append, areNamed_entryCopies hparams, hemits.areNamed hbody,
      hemits'.areNamed hresult]
    rfl
  have hheader : ((params g.returnTy g.params).all fun q => q.name.isValue) = true := by
    have hparams : ((g.params.map param).all fun q => q.name.isValue) = true := by
      rw [List.all_map, List.all_eq_true]
      exact fun v hv => isValue_param (hparams v hv)
    unfold params
    split
    · exact hparams
    · exact hparams
  exact Bool.and_eq_true_iff.2 ⟨hname, Bool.and_eq_true_iff.2 ⟨hheader, hcode⟩⟩

/-- **The code of a program has names in their places**, if they are identifiers in the trees. -/
theorem isNamed_program {env : Env} {root : Node} {p : C.Program} (h : program o env root = .ok p)
    (hnames : env.Identifiers root) : (∀ c ∈ p.functions, c.isNamed = true) ∧ p.main.isNamed = true := by
  obtain ⟨cs, main, hcs, hmain, rfl⟩ := program_eq_ok h
  constructor
  · intro c hc
    obtain ⟨g, hg, hfunction⟩ := exists_of_mem_functions hcs hc
    obtain ⟨hname, hparams⟩ := hnames.functions g hg
    exact isNamed_function hfunction hname hparams (hnames.trees _ (Env.mem_emittedTrees.2 (.inl ⟨g, hg, .inl rfl⟩)))
      (hnames.trees _ (Env.mem_emittedTrees.2 (.inl ⟨g, hg, .inr rfl⟩)))
  · have hroot : Stmt.areNamed main = true := hmain.areNamed (hnames.trees root (Env.mem_emittedTrees.2 (.inr rfl)))
    simp [C.mainFunction, C.Function.isNamed, C.Name.isFunction, hroot]

end Emit

end ImpC
