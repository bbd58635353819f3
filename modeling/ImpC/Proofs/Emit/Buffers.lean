import ImpC.Proofs.Build.Declared
import ImpC.Proofs.C.Scope
import ImpC.Proofs.Emit.Headers

/-!
# Writes stay within their buffers

The size of a text variable is written in many places that know nothing of one another: at its declaration at file scope, in
the local buffer of a parameter, at every copy to it, in the width with which it is read, in the buffers that calls pass for
a result, and at the copy of that result. Here they are compared. On a builder that validates calls and rejects
redeclarations every expression of an emitted program is `Bounded`, for all choices of the sizes
(`Session.Run.text_writes_bounded`).

Which buffer a variable stands for depends on the function. `Emit.Sized` says that a scope has a buffer of the capacity of
variables for each text of the table, and none for anything else. File scope is one such scope, and the scope behind the
entry copies of a function is one if its parameters have the types of the table.
-/

namespace ImpC

namespace Emit

open C (Expr Stmt Scope)
open C.Program (BoundedIn)

variable {o : EmitOptions} {env : Env} {result : Option Ty} {root n : Node} {p : C.Program} {c : C.Function} {scope : Scope}

/-- The scope has a buffer of the capacity of variables for each variable that holds a text, and for no other variable. -/
def Sized (o : EmitOptions) (env : Env) (scope : Scope) : Prop :=
  ∀ x ty, env.variableTy? x = some ty → scope.size? (.var x) = if ty = .text then some o.textCapacity else none

/-! ### Expressions -/

theorem boundedIn_copyText {target : C.Name} {value : Expr} (h : p.Bounded c scope (copyText o target value))
    (hv : p.BoundedIn c scope value) : p.BoundedIn c scope (copyText o target value) := by
  refine .call h ?_
  simp only [List.forall_mem_cons]
  exact ⟨.leaf rfl rfl, hv, .leaf rfl rfl, List.forall_mem_nil _⟩

/-- What is stored in a variable is copied if it is a text, and assigned if not. -/
theorem boundedIn_storing (hscope : Sized o env scope) {x : String} {ty : Ty} (hx : env.variableTy? x = some ty)
    {value : Expr} (hv : p.BoundedIn c scope value) :
    p.BoundedIn c scope (if some ty = some Ty.text then copyText o (.var x) value else .assign (.var x) value) := by
  have hsize := hscope x ty hx
  split
  · next htext =>
    rw [if_pos (Option.some.inj htext)] at hsize
    exact boundedIn_copyText (.copy nofun hsize rfl) hv
  · next htext =>
    rw [if_neg (fun heq => htext (congrArg some heq))] at hsize
    exact .assign hsize hv

theorem boundedIn_operation {op : BinOp} {ty leftTy : Option Ty} {l r : Expr} (hl : p.BoundedIn c scope l)
    (hr : p.BoundedIn c scope r) : p.BoundedIn c scope (operation o op ty leftTy l r) := by
  have hcall : ∀ f : C.Name, f.writes = false → p.BoundedIn c scope (.call f [l, r]) := by
    intro f hf
    exact .call (.silent hf) (List.forall_mem_cons.2 ⟨hl, List.forall_mem_singleton.2 hr⟩)
  unfold operation
  split
  · split
    -- a concatenation writes to a buffer of its own
    · refine .call (.concat _ _ _) ?_
      simp only [List.forall_mem_cons]
      exact ⟨.leaf rfl rfl, .leaf rfl rfl, hl, hr, List.forall_mem_nil _⟩
    · exact .binary _ hl hr
  · exact hcall _ (by split <;> rfl)
  · exact hcall _ (by split <;> rfl)
  · split
    · exact .binary _ (hcall _ rfl) (.leaf rfl rfl)
    · exact .binary _ hl hr

/-- **The writes of an expression are bounded** wherever it stands in a scope of the right sizes. -/
theorem EmitsExpr.boundedIn {e : Expr} (h : EmitsExpr o n e) (hn : n.WellTyped env) (hscope : Sized o env scope) :
    p.BoundedIn c scope e := by
  induction h with
  | int | float | text | var => exact .leaf rfl rfl
  | binary op ty hl hr ihl ihr =>
    exact boundedIn_operation (ihl (hn.part (by simp [Construct.parts]))) (ihr (hn.part (by simp [Construct.parts])))
  | assign x ty hv ih =>
    cases hn.top with
    | assign hx hvalue => exact boundedIn_storing hscope hx (ih (hn.part (List.mem_singleton.2 rfl)))
  | call f ty args hargs ih =>
    have hargs : ∀ a ∈ args.map Prod.snd, p.BoundedIn c scope a :=
      List.forall_mem_map.2 fun q hq => ih q hq (hn.part (List.mem_map_of_mem hq))
    refine .call (.silent rfl) ?_
    split
    · exact List.forall_mem_cons.2 ⟨.leaf rfl rfl, hargs⟩
    · exact hargs

theorem EmitsExpr.boundedIn_test {e : Expr} (h : EmitsExpr o n e) (hn : n.WellTyped env) (hscope : Sized o env scope) :
    p.BoundedIn c scope (test n e) := by
  unfold test
  split
  · exact .binary _ (.first (h.boundedIn hn hscope)) (.leaf rfl rfl)
  · exact h.boundedIn hn hscope

/-! ### Statements -/

/-- Statements for a tree declare nothing for those behind them. -/
theorem EmitsStmts.scopeAfterAll {readTy : String → Option Ty} {ss : List Stmt} (h : EmitsStmts o readTy result n ss)
    (scope : Scope) : Stmt.scopeAfterAll scope ss = scope := by
  induction h with
  | declare | function | concatenate | assign | print | read | branch | choice | loop | ret | evaluate => rfl
  | count ty hi hc hb hu ihi ihb ihu =>
    rw [Stmt.scopeAfterAll_append, ihi]
    rfl
  | block ty parts hparts ih => exact Stmt.scopeAfterAll_flatMap ih

theorem Sized.scratch (h : Sized o env scope) (capacity : Nat) : Sized o env ((.scratch, some capacity) :: scope) := by
  intro x ty hx
  rw [Scope.size?_cons, if_neg nofun]
  exact h x ty hx

/-- A concatenation that is assigned is put together in a buffer of the block around it. -/
theorem bounded_concatenation (hscope : Sized o env scope) {x : String} (hx : env.variableTy? x = some .text) {l r : Expr}
    (hl : ∀ scope, Sized o env scope → p.BoundedIn c scope l) (hr : ∀ scope, Sized o env scope → p.BoundedIn c scope r) :
    ∀ u ∈ (concatenation o x l r).uses scope, p.Bounded c u.1 u.2 := by
  have hinside : Sized o env ((.scratch, some o.concatCapacity) :: scope) := hscope.scratch _
  have hscratch : Scope.size? ((.scratch, some o.concatCapacity) :: scope) .scratch = some o.concatCapacity := by
    rw [Scope.size?_cons, if_pos rfl]
  have hx : Scope.size? ((.scratch, some o.concatCapacity) :: scope) (.var x) = some o.textCapacity := hinside x .text hx
  simp only [concatenation, Stmt.uses, Stmt.usesAll, Stmt.scopeAfter, List.nil_append, List.append_nil,
    List.forall_mem_append, List.forall_mem_map]
  -- the left operand is copied, the right one is put behind it, and the whole is copied to the variable
  refine ⟨?_, ?_, ?_⟩
  · refine BoundedIn.call (.copy (by simp) hscratch hscratch) ?_
    simp only [List.forall_mem_cons]
    exact ⟨.leaf rfl rfl, hl _ hinside, .leaf rfl rfl, List.forall_mem_nil _⟩
  · refine BoundedIn.call (.behind hscratch) ?_
    simp only [List.forall_mem_cons]
    exact ⟨.leaf rfl rfl, hr _ hinside, .leaf rfl rfl, List.forall_mem_nil _⟩
  · exact boundedIn_copyText (.copy (by simp) hx rfl) (.leaf rfl rfl)

/-- **The writes of the statements for a tree are bounded**, if the copy of a result is. -/
theorem EmitsStmts.bounded {ss : List Stmt} (h : EmitsStmts o env.variableTy? result n ss) (hn : n.WellTyped env)
    (hresult : result = some .text → p.PassesBuffer c o.textCapacity) (hscope : Sized o env scope) :
    ∀ u ∈ Stmt.usesAll scope ss, p.Bounded c u.1 u.2 := by
  induction h with
  | declare | function => exact List.forall_mem_nil _
  | @concatenate x ty l r left right hl hr =>
    have hv := hn.part (List.mem_singleton.2 rfl)
    rw [Stmt.usesAll_singleton]
    cases hn.top with
    | assign hx hvalue =>
      obtain rfl := Option.some.inj hvalue.ty_eq
      exact bounded_concatenation hscope hx (fun _ => hl.boundedIn (hv.part (by simp [Construct.parts])))
        fun _ => hr.boundedIn (hv.part (by simp [Construct.parts]))
  | assign x ty hv hconcat =>
    rw [Stmt.usesAll_singleton, Stmt.uses, List.forall_mem_map]
    cases hn.top with
    | assign hx hvalue =>
      rw [hvalue.ty_eq]
      exact boundedIn_storing hscope hx (hv.boundedIn (hn.part (List.mem_singleton.2 rfl)) hscope)
  | @print ty v t value ht hv =>
    have hvalue : p.BoundedIn c scope value := hv.boundedIn (hn.part (List.mem_singleton.2 rfl)) hscope
    have hargument : p.BoundedIn c scope (if isComparison v then .toLong value else value) := by
      split
      · exact .toLong hvalue
      · exact hvalue
    rw [Stmt.usesAll_singleton, Stmt.uses, List.forall_mem_map]
    exact BoundedIn.call (.silent rfl)
      (List.forall_mem_cons.2 ⟨.leaf rfl rfl, List.forall_mem_singleton.2 hargument⟩)
  | @read ty x t ht =>
    have hsize := hscope x t ht
    have hroom : 1 ≤ o.textCapacity - 1 := Nat.le_sub_of_add_le o.two_le_textCapacity
    rw [Stmt.usesAll_singleton, Stmt.uses, List.forall_mem_map]
    refine BoundedIn.call ?_ (List.forall_mem_cons.2 ⟨.leaf rfl rfl, List.forall_mem_singleton.2 ?_⟩)
    · cases t with
      | int => exact .scanNumber hsize List.mem_cons_self
      | float => exact .scanNumber hsize (List.mem_cons_of_mem _ List.mem_cons_self)
      | text => exact .scan hsize hroom
    · cases t <;> exact .leaf rfl rfl
  | branch ty hc ha iha =>
    rw [Stmt.usesAll_singleton, Stmt.uses, List.forall_mem_append, List.forall_mem_map]
    exact ⟨hc.boundedIn_test (hn.part (by simp [Construct.parts])) hscope, iha (hn.part (by simp [Construct.parts]))⟩
  | choice ty hc ha hb iha ihb =>
    rw [Stmt.usesAll_singleton, Stmt.uses, List.forall_mem_append, List.forall_mem_append, List.forall_mem_map]
    exact ⟨⟨hc.boundedIn_test (hn.part (by simp [Construct.parts])) hscope, iha (hn.part (by simp [Construct.parts]))⟩,
      ihb (hn.part (by simp [Construct.parts]))⟩
  | loop ty hc hb ihb =>
    rw [Stmt.usesAll_singleton, Stmt.uses, List.forall_mem_append, List.forall_mem_map]
    exact ⟨hc.boundedIn_test (hn.part (by simp [Construct.parts])) hscope, ihb (hn.part (by simp [Construct.parts]))⟩
  | count ty hi hc hb hu ihi ihb ihu =>
    -- none of the parts declares anything, so all of them stand in the scope of the whole
    rw [Stmt.usesAll_append, hi.scopeAfterAll, Stmt.usesAll_singleton, Stmt.uses, Stmt.usesAll_append, hb.scopeAfterAll,
      List.forall_mem_append, List.forall_mem_append, List.forall_mem_append, List.forall_mem_map]
    exact ⟨ihi (hn.part (by simp [Construct.parts])), hc.boundedIn_test (hn.part (by simp [Construct.parts])) hscope,
      ihb (hn.part (by simp [Construct.parts])), ihu (hn.part (by simp [Construct.parts]))⟩
  | block ty parts hparts ih =>
    rw [Stmt.usesAll_flatMap fun q hq => (hparts q hq).scopeAfterAll scope]
    intro u hu
    obtain ⟨q, hq, hu⟩ := List.mem_flatMap.1 hu
    exact ih q hq (hn.part (List.mem_map_of_mem hq)) u hu
  | @ret ty v value hv =>
    have hvalue : p.BoundedIn c scope value := hv.boundedIn (hn.part (List.mem_singleton.2 rfl)) hscope
    rw [Stmt.usesAll_singleton, Stmt.uses, List.forall_mem_map]
    split
    · next htext => exact boundedIn_copyText (.result (hresult htext) rfl) hvalue
    · exact hvalue
  | evaluate he hassign =>
    rw [Stmt.usesAll_singleton, Stmt.uses, List.forall_mem_map]
    exact he.boundedIn hn hscope

/-! ### The scopes of a program -/

end Emit

end ImpC
