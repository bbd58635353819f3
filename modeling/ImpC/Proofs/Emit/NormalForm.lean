import ImpC.Proofs.Emit.Generator
import ImpC.Proofs.Tree.Normal

/-!
# A program and its normal form

Emission does not see the difference between a tree and its normal form (`Node.normalize`). The statements for the two are
the same, or the first error is (`Emit.stmt_normalize`), because what normalizing moves is emitted in the order in which it
stood. In particular the body of a counting loop is emitted before the step after each round, although the step stands in
front of it in the tree.

`Env.normalize` normalizes the bodies and last statements of all functions. Which function a name means does not depend on
them, and so a program and its normal form have the same text, byte for byte, or the same error
(`Emit.programs_of_normal_forms`). The generator that writes a program in one pass treats the two alike wherever it is: it
writes the same lines at the same depth, notes the same needs and ends in the same state, also for a counting loop, where it
comes back from the body and goes one level deeper again for the step.
-/

namespace ImpC

/-! ### Environments -/

namespace Registry

variable {α : Type} {key : α → String} {f : α → α}

/-- The registry with changed entries that have kept their names. -/
def mapEntries (r : Registry α key) (f : α → α) (hf : ∀ a, key (f a) = key a) : Registry α key where
  entries := r.entries.map f
  index := r.index
  index_eq name := by
    rw [r.index_eq, Array.findIdx?_map]
    exact congrArg r.entries.findIdx? (funext fun a => congrArg (· == name) (hf a).symm)

@[simp] theorem toList_mapEntries (r : Registry α key) (hf : ∀ a, key (f a) = key a) :
    (r.mapEntries f hf).toList = r.toList.map f := by
  simp [mapEntries, toList]

/-- Whether an entry is the first of its name does not depend on anything but names. -/
theorem firstsAfter_map (hf : ∀ a, key (f a) = key a) (seen : List String) (l : List α) :
    firstsAfter key seen (l.map f) = (firstsAfter key seen l).map f := by
  induction l generalizing seen with
  | nil => rfl
  | cons a l ih =>
    rw [List.map_cons]
    by_cases ha : key a ∈ seen
    · have hfa : key (f a) ∈ seen := (hf a).symm ▸ ha
      rw [firstsAfter_cons_of_mem ha, firstsAfter_cons_of_mem hfa, ih]
    · have hfa : key (f a) ∉ seen := (hf a).symm ▸ ha
      rw [firstsAfter_cons_of_not_mem ha, firstsAfter_cons_of_not_mem hfa, hf, List.map_cons, ih]

theorem firsts_mapEntries (r : Registry α key) (hf : ∀ a, key (f a) = key a) :
    (r.mapEntries f hf).firsts = r.firsts.map f := by
  rw [firsts, toList_mapEntries, firstsAfter_map hf]
  rfl

end Registry

/-- The function with its body and its last statement in normal form. -/
def Function.normalize (f : Function) : Function := { f with body := f.body.normalize, result := f.result.normalize }

/-- The environment with all functions in normal form. -/
def Env.normalize (env : Env) : Env := { env with funs := env.funs.mapEntries Function.normalize fun _ => rfl }

@[simp] theorem Env.vars_normalize (env : Env) : env.normalize.vars = env.vars := rfl

@[simp] theorem Env.funs_normalize (env : Env) :
    env.normalize.funs.toList = env.funs.toList.map Function.normalize :=
  env.funs.toList_mapEntries (f := Function.normalize) fun _ => rfl

@[simp] theorem Env.variableTy?_normalize (env : Env) : env.normalize.variableTy? = env.variableTy? := rfl

namespace Emit

open C (Stmt)

/-! ### Statements -/

variable (o : EmitOptions) (readTy : String → Option Ty) (result : Option Ty)

theorem stmts_nil : stmts o readTy result [] = pure [] := rfl

theorem stmts_append (ns ms : List Node) :
    stmts o readTy result (ns ++ ms) = do
      let first ← stmts o readTy result ns
      let rest ← stmts o readTy result ms
      return first ++ rest := by
  induction ns with
  | nil => simp [stmts_nil]
  | cons n ns ih => simp only [List.cons_append, stmts, ih, bind_assoc, pure_bind, List.append_assoc]

theorem stmts_singleton (n : Node) : stmts o readTy result [n] = stmt o readTy result n := by
  rw [stmts, stmts_nil]
  simp

/-- A tree is emitted as its statements are in sequence. -/
theorem stmts_statements (n : Node) : stmts o readTy result n.statements = stmt o readTy result n := by
  cases hblock : n.isBlock with
  | false => rw [Node.statements_of_not_isBlock hblock, stmts_singleton]
  | true =>
    unfold Node.isBlock at hblock
    split at hblock
    · rfl
    · cases hblock

theorem stmts_normalizeAll {ns : List Node}
    (h : ∀ n ∈ ns, stmt o readTy result n.normalize = stmt o readTy result n) :
    stmts o readTy result (Node.normalizeAll ns) = stmts o readTy result ns := by
  induction ns with
  | nil => rfl
  | cons n ns ih =>
    obtain ⟨hn, hns⟩ := List.forall_mem_cons.1 h
    rw [Node.normalizeAll, stmts_append, stmts_statements, hn, ih hns, stmts]

/-- **A tree is emitted as its normal form is**, with the same code or the same error. -/
theorem stmt_normalize (n : Node) : stmt o readTy result n.normalize = stmt o readTy result n := by
  induction n using Node.induction with
  | mk c ty ih =>
    cases c with
    -- these are in normal form, or emit nothing
    | int | float | text | var | binary | assign | call | print | read | ret => rfl
    | declare | function => rfl
    | block ns => exact stmts_normalizeAll o readTy result ih
    | branch c a b =>
      have ha := ih a (by simp [Construct.parts])
      cases b with
      | none => rw [Node.normalize, stmt, stmt, ha]
      | some b => rw [Node.normalize, stmt, stmt, ha, ih b (by simp [Construct.parts])]
    | loop c b => rw [Node.normalize, stmt, stmt, ih b (by simp [Construct.parts])]
    | count i c u b =>
      have hi := ih i (by simp [Construct.parts])
      have hu := ih u (by simp [Construct.parts])
      have hb := ih b (by simp [Construct.parts])
      -- in both the condition comes behind the first step, then the body, and the later step last
      simp [stmt, stmts_append, stmts_singleton, stmts_statements, hi, hu, hb]

/-! ### Programs -/

theorem function_normalize (f : Function) : function o readTy f.normalize = function o readTy f := by
  unfold function Function.normalize
  rw [stmt_normalize, stmt_normalize]

theorem functions_map_normalize (fs : List Function) :
    functions o readTy (fs.map Function.normalize) = functions o readTy fs := by
  induction fs with
  | nil => rfl
  | cons f fs ih => rw [List.map_cons, functions, functions, function_normalize, ih]

theorem program_normalize (env : Env) (root : Node) : program o env.normalize root.normalize = program o env root := by
  have hfirsts : env.normalize.funs.firsts = env.funs.firsts.map Function.normalize :=
    env.funs.firsts_mapEntries (f := Function.normalize) fun _ => rfl
  rw [program, program, Env.variableTy?_normalize, Env.vars_normalize, hfirsts, functions_map_normalize, stmt_normalize]

/-- Wherever it is, a generator treats a tree and its normal form alike. -/
theorem run_writeStmt_normalize (env : Env) (n : Node) (g : Generator) :
    (writeStmt o env.normalize n.normalize).run g = (writeStmt o env n).run g := by
  rw [run_writeStmt o env.normalize, run_writeStmt o env]
  -- the code goes by the function that the generator is in, which is any
  simp only [Env.variableTy?_normalize, stmt_normalize]

/-- **A program is that of its normal form.** Whatever the environment and the root: with all functions and the root in normal
form the program has the same text, or the same error. So it is also for the generator that writes the program in one pass,
which treats a tree and its normal form alike at every moment: what it has written, the depth and the function it is at, and
the needs it has noted. In a normal form there is no counting loop, no declaration and no definition among the statements, and no
block among those of a block, and exactly the trees of which this is true are their own normal forms. -/
theorem programs_of_normal_forms (env : Env) (root : Node) :
    programText o env.normalize root.normalize = programText o env root ∧
    (writeProgram o env.normalize root.normalize).run' .fresh = (writeProgram o env root).run' .fresh ∧
    (∀ n g, (writeStmt o env.normalize n.normalize).run g = (writeStmt o env n).run g) ∧
    (∀ n : Node, n.normalize.isNormal = true ∧ (n.normalize = n ↔ n.isNormal = true)) ∧
    env.normalize.vars = env.vars ∧ env.normalize.funs.toList = env.funs.toList.map Function.normalize := by
  have htext : programText o env.normalize root.normalize = programText o env root := by
    rw [programText, programText, program_normalize]
  refine ⟨htext, ?_, run_writeStmt_normalize o env, fun n => ⟨n.isNormal_normalize, Node.normalize_eq_self_iff⟩,
    env.vars_normalize, env.funs_normalize⟩
  rw [run_writeProgram, run_writeProgram, htext]

end Emit

end ImpC
