import ImpC.Proofs.Emit.Generator
import ImpC.Proofs.Emit.Requirements
import ImpC.Proofs.Env.History

/-!
# Programs are put together from parts

A program is written by one generator that goes through all of it. Here each function, and `main`, is also written by a
generator of its own, which has not written anything before: `Emit.alone` gives the piece of text that comes out, with what it
needs, or the error. The text of a program is put together from these pieces, and its head from the union of their needs; if
the program has an error, it is that of the first piece that has one (`Emit.programText_eq_parts`).

A piece depends on the environment as far as it reads. The requirements of a tree name, in the order of emission, the
variables that are read in it: those of statements in blocks, branches and loops, but not of definitions of functions. Two
environments that give these the same types are the same to the code of the tree (`Emit.stmt_congr`). If emission stops at an
error, only the variables that it has come to until then count (`Requirement.reads`), since what comes behind does not change
the error (`Emit.eq_of_reads`).
-/

namespace ImpC

/-! ### Variables that are read -/

namespace Requirement

/-- The variable that is read. -/
def target? : Requirement → Option String
  | target x => some x
  | value _ | printed _ => none

/-- The requirements that emission comes to, up to the first one that is not met. -/
def reached (readTy : String → Option Ty) : List Requirement → List Requirement
  | [] => []
  | p :: ps => p :: if p.isMet readTy then reached readTy ps else []

/-- The variables that are read before emission is done or stops. -/
def reads (readTy : String → Option Ty) (ps : List Requirement) : List String := (reached readTy ps).filterMap target?

variable {readTy readTy' : String → Option Ty} {p : Requirement} {ps : List Requirement}

theorem reached_eq_self (h : ∀ p ∈ ps, p.isMet readTy = true) : reached readTy ps = ps := by
  induction ps with
  | nil => rfl
  | cons p ps ih =>
    obtain ⟨hp, hps⟩ := List.forall_mem_cons.1 h
    rw [reached, if_pos hp, ih hps]

/-- Where nothing is missing, everything is read. -/
theorem mem_reads (h : ∀ p ∈ ps, p.isMet readTy = true) {x : String} (hx : .target x ∈ ps) : x ∈ reads readTy ps := by
  rw [reads, reached_eq_self h]
  exact List.mem_filterMap.2 ⟨.target x, hx, rfl⟩

/-- Whether a requirement is met depends on the variable that is read, if there is one. -/
theorem isMet_congr (h : ∀ x ∈ p.target?, readTy x = readTy' x) : p.isMet readTy = p.isMet readTy' := by
  cases p with
  | value | printed => rfl
  | target x => rw [isMet, isMet, h x rfl]

/-- **What is missing first is missing first in both.** -/
theorem firstError?_congr (h : ∀ x ∈ reads readTy ps, readTy x = readTy' x) :
    firstError? readTy ps = firstError? readTy' ps := by
  induction ps with
  | nil => rfl
  | cons p ps ih =>
    have hhead : ∀ x ∈ p.target?, readTy x = readTy' x := by
      intro x hx
      exact h x (List.mem_filterMap.2 ⟨p, List.mem_cons_self, hx⟩)
    cases hp : p.isMet readTy with
    | false =>
      rw [firstError?_cons_of_not_isMet hp, firstError?_cons_of_not_isMet ((isMet_congr hhead).symm.trans hp)]
    | true =>
      rw [firstError?_cons_of_isMet hp, firstError?_cons_of_isMet ((isMet_congr hhead).symm.trans hp)]
      apply ih
      intro x hx
      obtain ⟨q, hq, hqx⟩ := List.mem_filterMap.1 hx
      refine h x (List.mem_filterMap.2 ⟨q, ?_, hqx⟩)
      rw [reached, if_pos hp]
      exact List.mem_cons_of_mem _ hq

end Requirement

/-- The requirements of a function, in the order in which emission comes to them. -/
def Function.requirements (f : Function) : List Requirement := f.body.codeRequirements ++ f.result.codeRequirements

namespace Emit

open C (Needs Stmt)

variable {o : EmitOptions} {readTy readTy' : String → Option Ty} {result : Option Ty} {env : Env} {n : Node}

theorem stmts_congr {ns : List Node}
    (hns : ∀ n ∈ ns, (∀ x, .target x ∈ n.codeRequirements → readTy x = readTy' x) →
      stmt o readTy result n = stmt o readTy' result n)
    (h : ∀ x, .target x ∈ Node.codeRequirementsAll ns → readTy x = readTy' x) :
    stmts o readTy result ns = stmts o readTy' result ns := by
  induction ns with
  | nil => rfl
  | cons n ns ih =>
    obtain ⟨hn, hns⟩ := List.forall_mem_cons.1 hns
    have hfirst := hn fun x hx => h x (List.mem_append_left _ hx)
    have hrest := ih hns fun x hx => h x (List.mem_append_right _ hx)
    rw [stmts, stmts, hfirst, hrest]

/-- **Code depends on the types of the variables that are read**, and on nothing else that is declared. -/
theorem stmt_congr (o : EmitOptions) (result : Option Ty)
    (h : ∀ x, .target x ∈ n.codeRequirements → readTy x = readTy' x) :
    stmt o readTy result n = stmt o readTy' result n := by
  induction n using Node.induction with
  | mk c ty ih =>
    cases c with
    | read x =>
      have hx : readTy x = readTy' x := h x (List.mem_singleton.2 rfl)
      rw [stmt, stmt, reading, reading, hx]
    | branch c a b =>
      cases b with
      | none =>
        have ha := ih a (by simp [Construct.parts]) fun x hx => h x (by simp [hx])
        rw [stmt, stmt, ha]
      | some b =>
        have ha := ih a (by simp [Construct.parts]) fun x hx => h x (by simp [hx])
        have hb := ih b (by simp [Construct.parts]) fun x hx => h x (by simp [hx])
        rw [stmt, stmt, ha, hb]
    | loop c b =>
      have hb := ih b (by simp [Construct.parts]) fun x hx => h x (by simp [hx])
      rw [stmt, stmt, hb]
    | count i c u b =>
      have hi := ih i (by simp [Construct.parts]) fun x hx => h x (by simp [hx])
      have hu := ih u (by simp [Construct.parts]) fun x hx => h x (by simp [hx])
      have hb := ih b (by simp [Construct.parts]) fun x hx => h x (by simp [hx])
      rw [stmt, stmt, hi, hb, hu]
    | block ns => exact stmts_congr ih h
    -- no other form of code looks at the environment or holds statements
    | int | float | text | var | binary | assign | call | print | declare | function | ret => rfl

theorem function_congr (o : EmitOptions) {f : Function} (h : ∀ x, .target x ∈ f.requirements → readTy x = readTy' x) :
    function o readTy f = function o readTy' f := by
  have hbody := stmt_congr o (some f.returnTy) fun x hx => h x (List.mem_append_left _ hx)
  have hresult := stmt_congr o (some f.returnTy) fun x hx => h x (List.mem_append_right _ hx)
  rw [function, function, hbody, hresult]

/-- **Only what is read counts.** Two computations with the same requirements, which are equal if all variables in them have
the same types, are equal already if those have that are read before the first one stops. -/
theorem eq_of_reads {α : Type} {x x' : Except EmitError α} {ps : List Requirement}
    (hx : failure? x = Requirement.firstError? readTy ps) (hx' : failure? x' = Requirement.firstError? readTy' ps)
    (heq : (∀ z, .target z ∈ ps → readTy z = readTy' z) → x = x')
    (h : ∀ z ∈ Requirement.reads readTy ps, readTy z = readTy' z) : x = x' := by
  cases hfirst : Requirement.firstError? readTy ps with
  | none => exact heq fun z hz => h z (Requirement.mem_reads (Requirement.firstError?_eq_none_iff.1 hfirst) hz)
  | some e =>
    -- what is not read is behind the error, which is the same for both
    rw [← Requirement.firstError?_congr h, hfirst] at hx'
    rw [failure?_eq_some_iff.1 (hx.trans hfirst), failure?_eq_some_iff.1 hx']

/-! ### Pieces -/

/-- A part of a program, as a generator of its own writes it. -/
structure Piece where
  text : String
  needs : Needs

/-- The piece that the code of a function is written as. -/
def Piece.ofCode (o : EmitOptions) (c : C.Function) : Piece := ⟨c.toText o.indentWidth, .of (Stmt.demandsAll c.body)⟩

/-- Writes a part with a fresh generator. -/
def alone (m : Generating String) : Except EmitError Piece := (fun r => ⟨r.1, r.2.needs⟩) <$> m.run .fresh

theorem alone_writeFunction (o : EmitOptions) (env : Env) (f : Function) :
    alone (writeFunction o env f) = Piece.ofCode o <$> function o env.variableTy? f := by
  rw [alone, Generator.fresh, run_writeFunction, Functor.map_map]
  simp only [Needs.empty_union]
  rfl

theorem alone_writeMain (o : EmitOptions) (env : Env) (root : Node) :
    alone (writeMain o env root) =
      (fun main => Piece.ofCode o (C.mainFunction main)) <$> stmt o env.variableTy? none root := by
  rw [alone, Generator.fresh, run_writeMain, Functor.map_map]
  simp only [Needs.empty_union]
  rfl

theorem mapM_alone_writeFunction (o : EmitOptions) (env : Env) (fs : List Function) :
    (fs.mapM fun f => alone (writeFunction o env f)) =
      List.map (Piece.ofCode o) <$> functions o env.variableTy? fs := by
  induction fs with
  | nil => rfl
  | cons f fs ih =>
    rw [List.mapM_cons, ih, alone_writeFunction]
    simp [functions]

/-- What pieces need together is what their code needs. -/
theorem union_needs_ofCode (o : EmitOptions) (cs : List C.Function) (main : C.Function) :
    Needs.union ((cs.map (Piece.ofCode o) ++ [Piece.ofCode o main]).map Piece.needs) =
      .of (cs.flatMap (fun c => Stmt.demandsAll c.body) ++ Stmt.demandsAll main.body) := by
  calc Needs.union ((cs.map (Piece.ofCode o) ++ [Piece.ofCode o main]).map Piece.needs)
      = Needs.union ((cs.map fun c => Needs.of (Stmt.demandsAll c.body)) ++ [.of (Stmt.demandsAll main.body)]) := by
        rw [List.map_append, List.map_map]
        rfl
    _ = .of (cs.flatMap fun c => Stmt.demandsAll c.body) ∪ .of (Stmt.demandsAll main.body) := by
        rw [Needs.union_append, Needs.union_map_of, Needs.union_cons]
        exact congrArg _ (Needs.union_empty _)
    _ = .of (cs.flatMap (fun c => Stmt.demandsAll c.body) ++ Stmt.demandsAll main.body) := (Needs.of_append _ _).symm

/-- **The text of a program is that of its parts.** -/
theorem programText_eq_parts (o : EmitOptions) (env : Env) (root : Node) :
    programText o env root = do
      let functions ← env.funs.firsts.mapM fun f => alone (writeFunction o env f)
      let main ← alone (writeMain o env root)
      return assemble o env (.union ((functions ++ [main]).map Piece.needs)) (functions.map Piece.text) main.text := by
  rw [mapM_alone_writeFunction, alone_writeMain]
  simp only [programText, program, toText_eq_assemble, ← union_needs_ofCode o, bind_map_left, bind_assoc, pure_bind,
    List.map_map]
  rfl

/-- **Programs are composed, and a part sees the environment only where it reads.** The generator that goes through a whole
program writes what is put together from pieces, of which each is written by a fresh generator; the first error of a piece is
the error. The piece of a function, and that of `main`, are the same, in text, needs or error, for any two environments that
give the same types to the variables that are read there, up to the error if there is one. -/
theorem programs_compose (o : EmitOptions) (env : Env) (root : Node) :
    (writeProgram o env root).run' .fresh = programText o env root ∧
    (programText o env root = do
      let functions ← env.funs.firsts.mapM fun f => alone (writeFunction o env f)
      let main ← alone (writeMain o env root)
      return assemble o env (.union ((functions ++ [main]).map Piece.needs)) (functions.map Piece.text) main.text) ∧
    (∀ (f : Function) (env' : Env),
      (∀ x ∈ Requirement.reads env.variableTy? f.requirements, env.variableTy? x = env'.variableTy? x) →
      alone (writeFunction o env f) = alone (writeFunction o env' f)) ∧
    ∀ env' : Env,
      (∀ x ∈ Requirement.reads env.variableTy? root.codeRequirements, env.variableTy? x = env'.variableTy? x) →
      alone (writeMain o env root) = alone (writeMain o env' root) := by
  refine ⟨run_writeProgram root, programText_eq_parts o env root, ?_, ?_⟩
  · intro f env' h
    have hsame : function o env.variableTy? f = function o env'.variableTy? f :=
      eq_of_reads (failure?_function o _ f) (failure?_function o _ f) (function_congr o) h
    rw [alone_writeFunction, alone_writeFunction, hsame]
  · intro env' h
    have hsame : stmt o env.variableTy? none root = stmt o env'.variableTy? none root :=
      eq_of_reads (failure?_stmt o _ none root) (failure?_stmt o _ none root) (stmt_congr o none) h
    rw [alone_writeMain, alone_writeMain, hsame]

/-- A variable that is read, and the quotient of it that is printed. -/
def halving : Node :=
  ⟨.block
    [⟨.read "x", none⟩,
     ⟨.print ⟨.binary .div ⟨.var "x", some .int⟩ ⟨.int 2, some .int⟩, some .int⟩, some .int⟩], none⟩

/-- The variable with nothing else. -/
def quiet : Env := .after [.declare ⟨"x", .int⟩]

/-- The variable among others, with two functions of one name. -/
def crowded : Env :=
  .after [.declare ⟨"y", .text⟩, .declare ⟨"x", .int⟩, .register ignoring, .register dividing]

theorem variableTy?_quiet : quiet.variableTy? "x" = some .int := by
  rw [quiet, (Env.records_after _).variableTy?, (Env.records_after _).vars]
  decide

theorem variableTy?_crowded : crowded.variableTy? "x" = some .int := by
  rw [crowded, (Env.records_after _).variableTy?, (Env.records_after _).vars]
  decide

/-- The function in front of `main` copies a text, and `main` divides. The piece that is written for `main` where nothing but
its variable is declared is the one that stands in the crowded program. A tree that is refused behind its first variable and
in front of the second one is refused in the same way, whether or not the second one is declared. -/
theorem programs_compose_crowded :
    (∃ f main : Piece,
      alone (writeFunction {} crowded ignoring) = .ok f ∧ alone (writeMain {} quiet halving) = .ok main ∧
      f.needs = ⟨{.textCopy}, false⟩ ∧ main.needs = ⟨{.divInt}, false⟩ ∧
      (writeProgram {} crowded halving).run' .fresh =
        .ok (assemble {} crowded (f.needs ∪ main.needs) [f.text] main.text)) ∧
    alone (writeMain {} crowded misshapen) = alone (writeMain {} quiet misshapen) := by
  obtain ⟨hpass, hparts, -, hmain⟩ := programs_compose {} crowded halving
  have hagree : ∀ x ∈ ["x"], crowded.variableTy? x = quiet.variableTy? x := by
    intro x hx
    rw [List.mem_singleton.1 hx, variableTy?_crowded, variableTy?_quiet]
  have hreads : Requirement.reads crowded.variableTy? halving.codeRequirements = ["x"] := by
    simp [Requirement.reads, Requirement.reached, Requirement.isMet, Requirement.target?, halving, Node.isExpression,
      Construct.isExpression, variableTy?_crowded]
  have hreads' : Requirement.reads crowded.variableTy? misshapen.codeRequirements = ["x"] := by
    simp [Requirement.reads, Requirement.reached, Requirement.isMet, Requirement.target?, misshapen, Node.isExpression,
      Construct.isExpression, variableTy?_crowded]
  have hfirsts : crowded.funs.firsts = [ignoring] := by
    rw [Registry.firsts, crowded, (Env.records_after _).funs]
    rfl
  have hsame : alone (writeMain {} crowded halving) = alone (writeMain {} quiet halving) :=
    hmain quiet (hreads ▸ hagree)
  obtain ⟨f, hf, hneeds⟩ : ∃ f, alone (writeFunction {} crowded ignoring) = .ok f ∧ f.needs = ⟨{.textCopy}, false⟩ :=
    ⟨_, alone_writeFunction {} crowded ignoring, by decide⟩
  obtain ⟨main, hm, hneeds'⟩ : ∃ main, alone (writeMain {} quiet halving) = .ok main ∧ main.needs = ⟨{.divInt}, false⟩ := by
    have hint : ∀ x, .target x ∈ halving.codeRequirements → quiet.variableTy? x = some .int := by
      simp [halving, variableTy?_quiet]
    rw [alone_writeMain, stmt_congr {} none hint]
    exact ⟨_, rfl, by decide⟩
  refine ⟨⟨f, main, hf, hm, hneeds, hneeds', ?_⟩, ?_⟩
  · rw [hpass, hparts, hfirsts, hsame, hm, List.mapM_cons, hf]
    show Except.ok (assemble {} crowded (f.needs ∪ (main.needs ∪ ∅)) [f.text] main.text) = _
    rw [Needs.union_empty]
  · exact (programs_compose {} crowded misshapen).2.2.2 quiet (hreads' ▸ hagree)

end Emit

end ImpC
