import ImpC.Proofs.C.Needs
import ImpC.Proofs.Emit.Runtime

/-!
# Writing a program in one pass

`Emit.programText` makes the code of a whole program first and writes it then. This module has a second way to the same
text: a `Generator` goes through the program once, from the first function to the root, and writes each line as it comes to
it. It keeps the text that it has written, the depth of the line it is at, the type that the function around it returns, and
what all code so far needs. Every part of the program is written by the same generator, so whatever one part leaves behind,
the next one starts with.

That nothing of this shows is `Emit.run_writeStmt`: from whatever generator, a tree writes the lines of the statements that
are emitted for it, at the depth at hand and for the function around it, adds what these need, and leaves depth and function
as they were; and it stops with the error of `Emit.stmt`, if there is one. A function is therefore written between two idle
moments, with nothing written, no brace open and no function around, no matter what was needed before
(`Generator.idle`, `Emit.run_writeFunction`), and the whole pass gives `Emit.programText` (`Emit.run_writeProgram`).
-/

namespace ImpC.Emit

open C (Demand Expr Line Needs Stmt)

/-- A generator at work. -/
structure Generator where
  /-- The text that is written and not taken yet. -/
  out : String
  /-- The number of braces that are open. -/
  depth : Nat
  /-- The type that the function around the code returns, and `none` in `main`. -/
  frame : Option Ty
  /-- What the code of all parts so far needs. -/
  needs : Needs

/-- A computation in which a generator writes, and which may stop with an error. -/
abbrev Generating := StateT Generator (Except EmitError)

namespace Generator

/-- Between two parts: nothing is written, no brace is open, and there is no function around. -/
def idle (needs : Needs) : Generator := ⟨"", 0, none, needs⟩

/-- A generator that has not written anything. -/
def fresh : Generator := idle ∅

/-- The generator with more lines written and more needs. -/
def wrote (o : EmitOptions) (g : Generator) (ls : List Line) (needs : Needs) : Generator :=
  { g with out := g.out ++ C.linesText o.indentWidth ls, needs := g.needs ∪ needs }

variable {o : EmitOptions} {g : Generator} {ls ls' : List Line} {needs needs' : Needs}

@[simp] theorem depth_wrote : (g.wrote o ls needs).depth = g.depth := rfl

@[simp] theorem frame_wrote : (g.wrote o ls needs).frame = g.frame := rfl

@[simp] theorem wrote_nil_empty : g.wrote o [] ∅ = g := by
  rw [wrote, C.linesText, List.map_nil, String.join_nil, String.append_empty, Needs.union_empty]

/-- What is written one after the other is written together. -/
@[simp] theorem wrote_wrote : (g.wrote o ls needs).wrote o ls' needs' = g.wrote o (ls ++ ls') (needs ∪ needs') := by
  simp only [wrote, C.linesText, List.map_append, String.join_append, String.append_assoc, Needs.union_assoc]

end Generator

/-! ### Writing -/

section Writing

variable (o : EmitOptions) (env : Env)

/-- Writes a line at the depth at hand. -/
def line (text : String) : Generating Unit := modify fun g => g.wrote o [⟨g.depth, text⟩] ∅

/-- Writes statements at the depth at hand. What they need is not noted here. -/
def put (ss : List Stmt) : Generating Unit := modify fun g => g.wrote o (Stmt.linesAll g.depth ss) ∅

/-- Notes what is needed. -/
def need (ds : List Demand) : Generating Unit := modify fun g => g.wrote o [] (.of ds)

/-- Writes one level deeper and comes back. -/
def deeper (m : Generating Unit) : Generating Unit := do
  modify fun g => { g with depth := g.depth + 1 }
  m
  modify fun g => { g with depth := g.depth - 1 }

/-- Writes a part of the program between its header and a closing brace, and hands it out. -/
def writePart (header : String) (body : Generating Unit) : Generating String := do
  line o header
  deeper body
  line o "\x7d"
  modifyGet fun g => (g.out, { g with out := "" })

mutual

/-- The expression for a tree, whose needs are noted on the way. -/
def writeExpr : Node → Generating Expr
  | ⟨.int v, _⟩ => return .long v
  | ⟨.float x, _⟩ => do
    need o (if C.needsMath x then [.constant] else [])
    return .double x
  | ⟨.text s, _⟩ => return .text s
  | ⟨.var x, _⟩ => return .name (.var x)
  | ⟨.binary op l r, ty⟩ => do
    need o (op.demands ty)
    let left ← writeExpr l
    let right ← writeExpr r
    return operation o op ty l.ty left right
  | ⟨.assign x v, ty⟩ => do
    need o (storeDemands ty)
    let value ← writeExpr v
    return if ty = some .text then copyText o (.var x) value else .assign (.var x) value
  | ⟨.call f args, ty⟩ => do
    let args ← writeExprs args
    return .call (.function f) (if ty = some .text then .buffer o.textCapacity :: args else args)
  | ⟨.print _, _⟩ | ⟨.read _, _⟩ | ⟨.declare _, _⟩ | ⟨.branch .., _⟩ | ⟨.loop .., _⟩ | ⟨.count .., _⟩
  | ⟨.block _, _⟩ | ⟨.function .., _⟩ | ⟨.ret _, _⟩ => throw (.unexpectedStatement "an expression")

/-- The expressions for several trees. -/
def writeExprs : List Node → Generating (List Expr)
  | [] => return []
  | n :: ns => do
    let e ← writeExpr n
    let es ← writeExprs ns
    return e :: es

end

/-- The expression that decides a branch or a loop. -/
def writeTest (n : Node) : Generating Expr := do
  let e ← writeExpr o n
  return if n.ty = some .text then .binary .ne (.first e) .nul else e

/-- Writes an assignment. The copy that stores a text is needed before the value is looked at. -/
def writeAssignment (x : String) (v : Node) : Generating Unit := do
  need o (storeDemands v.ty)
  match v with
  | ⟨.binary .add l r, some .text⟩ =>
    let left ← writeExpr o l
    let right ← writeExpr o r
    line o "\x7b"
    deeper (put o
      [.buffer .scratch o.concatCapacity,
       .expr (.call (.helper .textCopy) [.name .scratch, left, .sizeOf .scratch]),
       .expr (.call (.library .strncat) [.name .scratch, right, .room .scratch]),
       .expr (copyText o (.var x) (.name .scratch))])
    line o "\x7d"
  | v =>
    let e ← writeExpr o v
    put o [.expr (if v.ty = some .text then copyText o (.var x) e else .assign (.var x) e)]

/-- Writes a statement that prints. -/
def writePrinting (v : Node) : Generating Unit :=
  match v.ty with
  | none => throw (.unexpectedStatement "a printed value")
  | some ty => do
    let e ← writeExpr o v
    put o [.expr (.call (.library .printf) [.text (printFormat ty), if isComparison v then .toLong e else e])]

/-- Writes a statement that reads. This is the only place where the environment is asked for something. -/
def writeReading (x : String) : Generating Unit :=
  match env.variableTy? x with
  | none => throw (.unknownReadTarget x)
  | some ty =>
    put o [.expr (.call (.library .scanf)
      [.text (scanFormat o ty), if ty = .text then .name (.var x) else .addressOf (.var x)])]

/-- Writes a statement that leaves the function around it. The copy of a text is needed behind the value. -/
def writeReturning (v : Node) : Generating Unit := do
  let result := (← get).frame
  let e ← writeExpr o v
  need o (storeDemands result)
  put o [.ret (if result = some .text then copyText o .result e else e)]

/-- Writes an expression that is carried out for its effect. -/
def writeEvaluation (n : Node) : Generating Unit := do
  let e ← writeExpr o n
  put o [.expr e]

mutual

/-- Writes the code for a tree. -/
def writeStmt : Node → Generating Unit
  | ⟨.declare _, _⟩ | ⟨.function .., _⟩ => return
  | ⟨.assign x v, _⟩ => writeAssignment o x v
  | ⟨.print v, _⟩ => writePrinting o v
  | ⟨.read x, _⟩ => writeReading o env x
  | ⟨.branch c a none, _⟩ => do
    let test ← writeTest o c
    line o ("if (" ++ test.toText ++ ") \x7b")
    deeper (writeStmt a)
    line o "\x7d"
  | ⟨.branch c a (some b), _⟩ => do
    let test ← writeTest o c
    line o ("if (" ++ test.toText ++ ") \x7b")
    deeper (writeStmt a)
    line o "\x7d else \x7b"
    deeper (writeStmt b)
    line o "\x7d"
  | ⟨.loop c b, _⟩ => do
    let test ← writeTest o c
    line o ("while (" ++ test.toText ++ ") \x7b")
    deeper (writeStmt b)
    line o "\x7d"
  | ⟨.count i c u b, _⟩ => do
    writeStmt i
    let test ← writeTest o c
    line o ("while (" ++ test.toText ++ ") \x7b")
    deeper (writeStmt b)
    -- the step after each round comes back from the body and goes one level deeper again
    deeper (writeStmt u)
    line o "\x7d"
  | ⟨.block ns, _⟩ => writeStmts ns
  | ⟨.ret v, _⟩ => writeReturning o v
  | ⟨.int v, ty⟩ => writeEvaluation o ⟨.int v, ty⟩
  | ⟨.float x, ty⟩ => writeEvaluation o ⟨.float x, ty⟩
  | ⟨.text s, ty⟩ => writeEvaluation o ⟨.text s, ty⟩
  | ⟨.var x, ty⟩ => writeEvaluation o ⟨.var x, ty⟩
  | ⟨.binary op l r, ty⟩ => writeEvaluation o ⟨.binary op l r, ty⟩
  | ⟨.call f ns, ty⟩ => writeEvaluation o ⟨.call f ns, ty⟩

/-- Writes the code for trees in sequence. -/
def writeStmts : List Node → Generating Unit
  | [] => return
  | n :: ns => do
    writeStmt n
    writeStmts ns

end

/-- Writes the local buffers of the text parameters and fills them. -/
def writeCopies : List Variable → Generating Unit
  | [] => return
  | ⟨x, .text⟩ :: rest => do
    need o [.helper .textCopy]
    put o [.buffer (.var x) o.textCapacity,
      .expr (.call (.helper .textCopy) [.name (.var x), .name (.argument x), .sizeOf (.var x)])]
    writeCopies rest
  | ⟨_, .int⟩ :: rest | ⟨_, .float⟩ :: rest => writeCopies rest

/-- The function that is written, without its body. -/
def functionHead (f : Function) : C.Function :=
  ⟨false, declTy f.returnTy, .function f.name, params f.returnTy f.params, []⟩

/-- Writes a function. -/
def writeFunction (f : Function) : Generating String := do
  modify fun g => { g with frame := some f.returnTy }
  let text ← writePart o (functionHead f).header do
    writeCopies o f.params
    writeStmt o env f.body
    writeStmt o env f.result
  modify fun g => { g with frame := none }
  return text

/-- Writes functions, except those whose name has come before. -/
def writeFunctions (seen : List String) : List Function → Generating (List String)
  | [] => return []
  | f :: rest =>
    if f.name ∈ seen then writeFunctions seen rest
    else do
      let first ← writeFunction o env f
      let rest ← writeFunctions (f.name :: seen) rest
      return first :: rest

/-- Writes `main`. -/
def writeMain (root : Node) : Generating String :=
  writePart o (C.mainFunction []).header do
    writeStmt o env root
    put o [.ret (.size 0)]

/-- A program put together from its parts. -/
def assemble (needs : Needs) (functions : List String) (main : String) : String :=
  String.join (needs.includes.map fun header => "#include <" ++ header ++ ">\n") ++ "\n" ++
    String.join (needs.definitions.map (· ++ "\n\n")) ++
    C.Program.globalsText (env.vars.toList.map (global o)) ++
    String.join (functions.map (· ++ "\n")) ++ main

/-- Writes a program. The head of it is known when everything else is written. -/
def writeProgram (root : Node) : Generating String := do
  let functions ← writeFunctions o env [] env.funs.toList
  let main ← writeMain o env root
  return assemble o env (← get).needs functions main

end Writing

/-! ### What is written for a tree -/

variable {o : EmitOptions} {env : Env} {g : Generator}

section Primitives

variable (g)

@[simp] theorem run_line (text : String) : (line o text).run g = pure ((), g.wrote o [⟨g.depth, text⟩] ∅) := rfl

@[simp] theorem run_put (ss : List Stmt) :
    (put o ss).run g = pure ((), g.wrote o (Stmt.linesAll g.depth ss) ∅) := rfl

@[simp] theorem run_need (ds : List Demand) : (need o ds).run g = pure ((), g.wrote o [] (.of ds)) := rfl

end Primitives

theorem run_writeExprs {ns : List Node}
    (h : ∀ n ∈ ns, ∀ g, (writeExpr o n).run g = (fun e => (e, g.wrote o [] (.of e.demands))) <$> expr o n)
    (g : Generator) :
    (writeExprs o ns).run g = (fun es => (es, g.wrote o [] (.of (Expr.demandsAll es)))) <$> exprs o ns := by
  induction ns generalizing g with
  | nil =>
    rw [writeExprs, exprs, StateT.run_pure]
    show _ = pure ([], g.wrote o [] ∅)
    rw [Generator.wrote_nil_empty]
  | cons n ns ih =>
    obtain ⟨hn, hns⟩ := List.forall_mem_cons.1 h
    simp [writeExprs, exprs, hn, ih hns]

/-- **The expression for a tree** is the emitted one. The text does not change on the way to it, and its needs are added. -/
theorem run_writeExpr (n : Node) (g : Generator) :
    (writeExpr o n).run g = (fun e => (e, g.wrote o [] (.of e.demands))) <$> expr o n := by
  induction n using Node.induction generalizing g with
  | mk c ty ih =>
    cases c with
    | int | text | var => exact congrArg (fun g' => Except.ok (_, g')) Generator.wrote_nil_empty.symm
    | float x =>
      show _ = pure (Expr.double x, g.wrote o [] (.of (Expr.double x).demands))
      rw [Expr.demands_double]
      rfl
    | binary op l r =>
      have hl := ih l (by simp [Construct.parts])
      have hr := ih r (by simp [Construct.parts])
      simp [writeExpr, expr, hl, hr, demands_operation]
    | assign x v =>
      have hv := ih v (List.mem_singleton.2 rfl)
      by_cases hty : ty = some .text <;> simp [writeExpr, expr, hv, storeDemands, hty, demands_copyText]
    | call f ns =>
      have hns : ∀ g, (writeExprs o ns).run g = _ := run_writeExprs ih
      by_cases hty : ty = some .text <;> simp [writeExpr, expr, hns, hty]
    | print | read | declare | branch | loop | count | block | function | ret => rfl

theorem run_writeTest (n : Node) (g : Generator) :
    (writeTest o n).run g = (fun e => (e, g.wrote o [] (.of e.demands))) <$> condition o n := by
  by_cases hty : n.ty = some .text <;> simp [writeTest, condition, run_writeExpr, hty]

/-- From every generator, the computation writes the statements that `code` gives for the function around, adds what they
need, and leaves the rest of the generator as it was. -/
def Writes (o : EmitOptions) (m : Generating Unit) (code : Option Ty → Except EmitError (List Stmt)) : Prop :=
  ∀ g : Generator, m.run g =
    (fun ss => ((), g.wrote o (Stmt.linesAll g.depth ss) (.of (Stmt.demandsAll ss)))) <$> code g.frame

@[simp] theorem run_deeper_put (ss : List Stmt) (g : Generator) :
    (deeper (put o ss)).run g = pure ((), g.wrote o (Stmt.linesAll (g.depth + 1) ss) ∅) := rfl

/-- What is written one level deeper ends at the depth where it began. -/
theorem Writes.run_deeper {m : Generating Unit} {code : Option Ty → Except EmitError (List Stmt)} (h : Writes o m code)
    (g : Generator) : (deeper m).run g =
      (fun ss => ((), g.wrote o (Stmt.linesAll (g.depth + 1) ss) (.of (Stmt.demandsAll ss)))) <$> code g.frame := by
  simp only [deeper, StateT.run_bind, StateT.run_modify, pure_bind, h _, bind_pure_comp, Functor.map_map]
  rfl

theorem writes_nothing : Writes o (pure ()) fun _ => pure [] := by
  intro g
  exact congrArg (fun g' => Except.ok ((), g')) Generator.wrote_nil_empty.symm

@[simp] theorem linesAll_append (depth : Nat) (ss ts : List Stmt) :
    Stmt.linesAll depth (ss ++ ts) = Stmt.linesAll depth ss ++ Stmt.linesAll depth ts := by
  induction ss with
  | nil => rfl
  | cons s ss ih => rw [List.cons_append, Stmt.linesAll, ih, Stmt.linesAll, List.append_assoc]

/-- Code that is written in two steps is the code of the first step in front of that of the second. -/
theorem Writes.seq {m m' : Generating Unit} {code code' : Option Ty → Except EmitError (List Stmt)}
    (h : Writes o m code) (h' : Writes o m' code') :
    Writes o (do m; m') fun frame => do
      let first ← code frame
      let rest ← code' frame
      return first ++ rest := by
  intro g
  simp [h g, h' _]

/-- A concatenation that is assigned needs the copy, twice, and what its operands need. -/
theorem needs_concatenation (x : String) (l r : Expr) :
    Needs.of (concatenation o x l r).demands = .of (storeDemands (some .text)) ∪ (.of l.demands ∪ .of r.demands) := by
  have hdemands : (concatenation o x l r).demands =
      storeDemands (some .text) ++ ((l.demands ++ r.demands) ++ storeDemands (some .text)) := by
    simp [concatenation, demands_copyText, storeDemands]
  -- the copy is asked for in front of the operands and behind them, which is once in a set
  rw [hdemands, Needs.of_append, Needs.of_append, Needs.of_append, Needs.union_comm _ (.of (storeDemands _)),
    ← Needs.union_assoc, Needs.union_self]

theorem writes_assignment (x : String) (v : Node) :
    Writes o (writeAssignment o x v) fun _ => (fun s => [s]) <$> assignment o x v := by
  intro g
  unfold writeAssignment assignment
  split
  · simp only [Node.ty_mk, StateT.run_bind, run_need, run_writeExpr, run_line, run_deeper_put, bind_pure_comp, map_pure,
      Generator.depth_wrote, Generator.wrote_wrote, List.cons_append, List.nil_append, Functor.map_map, Needs.union_empty,
      bind_map_left, pure_bind, map_bind, Stmt.demandsAll_cons, Stmt.demandsAll_nil, List.append_nil, needs_concatenation]
    rfl
  · by_cases hty : v.ty = some .text
    · simp [run_writeExpr, hty, storeDemands, demands_copyText]
    · simp [run_writeExpr, hty, storeDemands]

theorem writes_printing (v : Node) : Writes o (writePrinting o v) fun _ => (fun s => [s]) <$> printing o v := by
  intro g
  cases hty : v.ty with
  | none =>
    simp only [writePrinting, printing, hty]
    rfl
  | some ty => cases hcomparison : isComparison v <;> simp [writePrinting, printing, hty, run_writeExpr, hcomparison]

theorem writes_reading (x : String) :
    Writes o (writeReading o env x) fun _ => (fun s => [s]) <$> reading o env.variableTy? x := by
  intro g
  cases hty : env.variableTy? x with
  | none =>
    simp only [writeReading, reading, hty]
    rfl
  | some ty =>
    simp only [writeReading, reading, hty, run_put]
    cases ty <;> rfl

/-- A text is copied to the caller's buffer, which the generator knows from the function around. -/
theorem writes_returning (v : Node) :
    Writes o (writeReturning o v) fun frame => (fun s => [s]) <$> returning o frame v := by
  intro g
  by_cases hframe : g.frame = some .text
  -- the copy is noted behind the value and stands in front of it in the code
  · simp [writeReturning, returning, run_writeExpr, hframe, storeDemands, demands_copyText, Needs.union_comm]
  · simp [writeReturning, returning, run_writeExpr, hframe, storeDemands]

theorem writes_evaluation (n : Node) : Writes o (writeEvaluation o n) fun _ => evaluation o n := by
  intro g
  simp [writeEvaluation, evaluation, run_writeExpr]

theorem writes_stmts {ns : List Node}
    (h : ∀ n ∈ ns, Writes o (writeStmt o env n) fun frame => stmt o env.variableTy? frame n) :
    Writes o (writeStmts o env ns) fun frame => stmts o env.variableTy? frame ns := by
  induction ns with
  | nil => exact writes_nothing
  | cons n ns ih =>
    obtain ⟨hn, hns⟩ := List.forall_mem_cons.1 h
    exact hn.seq (ih hns)

/-- **What is written for a tree.** The induction is over the tree, and the generator it starts with is arbitrary: in a
loop, the step after each round starts with what the body has left. -/
theorem run_writeStmt (o : EmitOptions) (env : Env) (n : Node) :
    Writes o (writeStmt o env n) fun frame => stmt o env.variableTy? frame n := by
  induction n using Node.induction with
  | mk c ty ih =>
    cases c with
    -- statements without parts of their own are written by the lemmas above
    | declare | function => exact writes_nothing
    | assign x v => exact writes_assignment x v
    | print v => exact writes_printing v
    | read x => exact writes_reading x
    | ret v => exact writes_returning v
    | int | float | text | var | binary | call => exact writes_evaluation _
    -- what is in braces is written one level deeper, and the lines around it at the depth at hand
    | branch c a b =>
      have ha := ih a (by simp [Construct.parts])
      cases b with
      | none =>
        intro g
        simp [writeStmt, stmt, run_writeTest, ha.run_deeper, Stmt.linesAll, Stmt.lines]
      | some b =>
        have hb := ih b (by simp [Construct.parts])
        intro g
        simp [writeStmt, stmt, run_writeTest, ha.run_deeper, hb.run_deeper, Stmt.linesAll, Stmt.lines]
    | loop c b =>
      have hb := ih b (by simp [Construct.parts])
      intro g
      simp [writeStmt, stmt, run_writeTest, hb.run_deeper, Stmt.linesAll, Stmt.lines]
    | count i c u b =>
      have hi := ih i (by simp [Construct.parts])
      have hu := ih u (by simp [Construct.parts])
      have hb := ih b (by simp [Construct.parts])
      intro g
      simp [writeStmt, stmt, run_writeTest, hi g, hu.run_deeper, hb.run_deeper, Stmt.linesAll, Stmt.lines]
    | block ns => exact writes_stmts ih

/-! ### What is written for a program -/

theorem writes_copies (vars : List Variable) : Writes o (writeCopies o vars) fun _ => pure (entryCopies o vars) := by
  induction vars with
  | nil => exact writes_nothing
  | cons v vars ih =>
    obtain ⟨x, ty⟩ := v
    cases ty with
    | int | float => exact ih
    | text =>
      intro g
      simp [writeCopies, entryCopies, ih _, Stmt.linesAll]

/-- A part is written between two idle moments. What was needed before does not show in it. -/
theorem run_writePart {body : Generating Unit} {code : Option Ty → Except EmitError (List Stmt)} (h : Writes o body code)
    (c : C.Function) (frame : Option Ty) (needs : Needs) :
    (writePart o c.header body).run ⟨"", 0, frame, needs⟩ =
      (fun ss => (C.Function.toText o.indentWidth { c with body := ss },
        ⟨"", 0, frame, needs ∪ .of (Stmt.demandsAll ss)⟩)) <$> code frame := by
  have hwrote : ∀ ss ns, Generator.wrote o ⟨"", 0, frame, needs⟩
      (⟨0, c.header⟩ :: (Stmt.linesAll 1 ss ++ [⟨0, "\x7d"⟩])) ns =
        ⟨C.Function.toText o.indentWidth { c with body := ss }, 0, frame, needs ∪ ns⟩ := by
    intro ss ns
    -- nothing was written before, so all that is written is the part
    exact congrArg (Generator.mk · 0 frame (needs ∪ ns)) String.empty_append
  simp [writePart, h.run_deeper, hwrote]

/-- **A function is written as if it were alone.** The generator comes back with nothing but more needs. -/
theorem run_writeFunction (f : Function) (needs : Needs) :
    (writeFunction o env f).run (.idle needs) =
      (fun c => (c.toText o.indentWidth, .idle (needs ∪ .of (Stmt.demandsAll c.body)))) <$>
        function o env.variableTy? f := by
  have hbody := (writes_copies (o := o) f.params).seq ((run_writeStmt o env f.body).seq (run_writeStmt o env f.result))
  simp [writeFunction, run_writePart hbody, function, Generator.idle, functionHead]

theorem run_writeMain (root : Node) (needs : Needs) :
    (writeMain o env root).run (.idle needs) =
      (fun main => ((C.mainFunction main).toText o.indentWidth,
        .idle (needs ∪ .of (Stmt.demandsAll (C.mainFunction main).body)))) <$> stmt o env.variableTy? none root := by
  have hreturn : Writes o (put o [.ret (.size 0)]) fun _ => pure [.ret (.size 0)] := fun _ => rfl
  have hbody := (run_writeStmt o env root).seq hreturn
  simp [writeMain, run_writePart hbody, Generator.idle, C.mainFunction]

theorem run_writeFunctions (fs : List Function) (seen : List String) (needs : Needs) :
    (writeFunctions o env seen fs).run (.idle needs) =
      (fun cs => (cs.map (·.toText o.indentWidth), .idle (needs ∪ .of (cs.flatMap fun c => Stmt.demandsAll c.body)))) <$>
        functions o env.variableTy? (Registry.firstsAfter Function.name seen fs) := by
  induction fs generalizing seen needs with
  | nil =>
    show _ = pure ([], Generator.idle (needs ∪ ∅))
    rw [Needs.union_empty]
    rfl
  | cons f fs ih =>
    rw [writeFunctions]
    by_cases hseen : f.name ∈ seen
    -- a name that has come before is passed over on both sides
    · rw [if_pos hseen, Registry.firstsAfter_cons_of_mem hseen, ih]
    · rw [if_neg hseen, Registry.firstsAfter_cons_of_not_mem hseen, functions]
      simp [run_writeFunction, ih, Needs.union_assoc]

/-- The text of a program is put together from the texts of its parts and the set of its needs. -/
theorem toText_eq_assemble {cs : List C.Function} {main : List Stmt} :
    C.Program.toText o.indentWidth ⟨env.vars.toList.map (global o), cs, C.mainFunction main⟩ =
      assemble o env (.of (cs.flatMap (fun c => Stmt.demandsAll c.body) ++ Stmt.demandsAll (C.mainFunction main).body))
        (cs.map (·.toText o.indentWidth)) ((C.mainFunction main).toText o.indentWidth) := by
  rw [C.Program.toText, C.Program.includes_support, C.Program.definitions_support, assemble, List.map_map]
  rfl

/-- **One pass writes the program.** -/
theorem run_writeProgram (root : Node) :
    (writeProgram o env root).run' .fresh = programText o env root := by
  simp only [writeProgram, Generator.fresh, StateT.run'_eq, StateT.run_bind, StateT.run_map, StateT.run_get,
    run_writeFunctions, run_writeMain, programText, program, toText_eq_assemble, Needs.empty_union, Needs.of_append,
    bind_pure_comp, bind_map_left, map_pure, map_bind, Functor.map_map]
  rfl

end ImpC.Emit
