import ImpC.C.Definition
import ImpC.Proofs.C.Memory

/-!
# Running code that works on texts

What the code of an emitted program does to the memory, for the part of C in which texts are copied and put together:
sizes, characters and places in buffers, calls of the helper routines and of the functions for texts of the standard
library. The helper routines are not described but run: a call of one carries out the body of its definition
(`Function.run`). The functions of the library are described as the standard has them.

Running either gives a result or a `Fault`. Code outside of this part is a fault too (`Fault.misuse`), and so is a name
that is not declared. Arguments and operands are evaluated from left to right. No operation of this part makes a size
larger than both of its operands, so sizes are numbers without a bound, and what has to be excluded is a difference below
zero. Buffers that are no longer in scope keep their place in the memory.
-/

namespace ImpC.C

/-- The value of an expression. -/
inductive Value where
  /-- A size, or the outcome of a comparison. -/
  | size (n : Nat)
  | char (byte : UInt8)
  | pointer (p : Pointer)
  deriving DecidableEq, Repr, Inhabited

/-- Whether a value counts as true. -/
def Value.holds : Value → Except Fault Bool
  | size n => .ok (n != 0)
  | char byte => .ok (byte != 0)
  | pointer _ => .ok true

/-- What a declared name stands for. -/
inductive Binding where
  /-- A buffer, by its position in the memory. -/
  | array (block : Nat)
  /-- A variable, with nothing in it until it is assigned. -/
  | scalar (value : Option Value)
  deriving DecidableEq, Repr, Inhabited

/-- The memory and the names that are declared. -/
structure State where
  memory : Memory
  names : Name → Option Binding

namespace State

/-- The value of a name. A buffer stands for the place where it starts. -/
def value (s : State) (n : Name) : Except Fault Value :=
  match s.names n with
  | some (.array block) => .ok (.pointer ⟨block, 0⟩)
  | some (.scalar (some v)) => .ok v
  | some (.scalar none) => .error .unwritten
  | none => .error .misuse

/-- The bytes of a buffer. -/
def capacity (s : State) (n : Name) : Except Fault Nat :=
  match s.names n with
  | some (.array block) => (s.memory.size? block).elim (.error .outside) .ok
  | _ => .error .misuse

/-- Declares a name, and hides what had the name before. -/
def declare (s : State) (n : Name) (b : Binding) : State :=
  { s with names := fun k => if k = n then some b else s.names k }

/-- Assigns a variable. -/
def assign (s : State) (n : Name) (v : Value) : Except Fault State :=
  match s.names n with
  | some (.scalar _) => .ok (s.declare n (.scalar (some v)))
  | _ => .error .misuse

/-- Runs something in a scope; behind it, the names declared in it stand again for what they stood for. -/
def inside (s : State) (declared : List Name) (run : State → Except Fault (Option Value × State)) :
    Except Fault (Option Value × State) := do
  let (result, after) ← run s
  return (result, { after with names := fun k => if k ∈ declared then s.names k else after.names k })

variable {s after : State} {n k : Name} {v : Value} {b : Binding}

theorem value_eq_ok (h : s.names n = some (.scalar (some v))) : s.value n = .ok v := by
  rw [value, h]

theorem names_declare (s : State) (n : Name) (b : Binding) : (s.declare n b).names n = some b := if_pos rfl

theorem value_declare (s : State) (n : Name) (v : Value) : (s.declare n (.scalar (some v))).value n = .ok v :=
  value_eq_ok (s.names_declare n _)

theorem value_declare_of_ne (h : k ≠ n) : (s.declare n b).value k = s.value k := by
  simp only [value, declare, if_neg h]

theorem value_of_array {block : Nat} (h : s.names n = some (.array block)) : s.value n = .ok (.pointer ⟨block, 0⟩) := by
  rw [value, h]

theorem capacity_of_array {block size : Nat} (h : s.names n = some (.array block))
    (hsize : s.memory.size? block = some size) : s.capacity n = .ok size := by
  simp only [capacity, h, hsize, Option.elim]

theorem assign_eq_declare {old : Option Value} (h : s.names n = some (.scalar old)) :
    s.assign n v = .ok (s.declare n (.scalar (some v))) := by
  rw [assign, h]

/-- What runs in a scope runs as it does, and the names declared there are given back. -/
theorem inside_eq_ok {declared : List Name} {run : State → Except Fault (Option Value × State)}
    {result : Option Value} (h : run s = .ok (result, after)) :
    s.inside declared run =
      .ok (result, { after with names := fun k => if k ∈ declared then s.names k else after.names k }) :=
  bind_eq_ok_iff.2 ⟨_, h, rfl⟩

end State

/-- The difference of two sizes. -/
def difference (a b : Nat) : Except Fault Nat := if b ≤ a then .ok (a - b) else .error .wrapped

/-- The bytes in front of the first zero, but no more than the bound. -/
def upToBound : Nat → List Cell → Except Fault (List UInt8)
  | 0, _ => .ok []
  | _ + 1, [] => .error .outside
  | _ + 1, none :: _ => .error .unwritten
  | n + 1, some byte :: rest => if byte = 0 then .ok [] else (byte :: ·) <$> upToBound n rest

namespace Memory

/-- An operation on two values. A place that is moved has to stay in its buffer or directly behind it. -/
def operate (m : Memory) : BinOp → Value → Value → Except Fault Value
  | .sub, .size a, .size b => .size <$> difference a b
  | .ge, .size a, .size b => .ok (.size (if b ≤ a then 1 else 0))
  | .add, .pointer p, .size n => (fun _ => .pointer (p.advance n)) <$> m.cells (p.advance n)
  | _, _, _ => .error .misuse

theorem operate_sub {a b : Nat} (m : Memory) (h : b ≤ a) :
    m.operate .sub (.size a) (.size b) = .ok (.size (a - b)) := by
  rw [operate, difference, if_pos h]
  rfl

/-- The functions for texts of the standard library. -/
def library (m : Memory) : Library → List Value → Except Fault (Value × Memory)
  | .strlen, [.pointer src] => do
    let bytes ← m.text src
    return (.size bytes.length, m)
  | .memmove, [.pointer dst, .pointer src, .size n] => do
    -- everything is read before anything is written, so the two places may overlap
    let cells ← m.read src n
    let m ← m.write dst cells
    return (.pointer dst, m)
  | .strncat, [.pointer dst, .pointer src, .size n] => do
    let bytes ← m.text dst
    let cells ← m.cells src
    -- the bound does not count the zero, which is written in any case
    let added ← upToBound n cells
    if dst.block = src.block then .error .overlap else
      let m ← m.write (dst.advance bytes.length) (terminated added)
      return (.pointer dst, m)
  | _, _ => .error .misuse

end Memory

/-- What can be called: a name and the values of the arguments give a value and change the memory. -/
abbrev Routines := Name → List Value → Memory → Except Fault (Value × Memory)

/-- The bytes of a string literal, with the zero that C puts behind them. -/
def literalCells (s : String) : List Cell := terminated s.toUTF8.data.toList

namespace Expr

mutual

/-- Evaluates an expression. -/
def eval (call : Routines) : Expr → State → Except Fault (Value × State)
  | name n, s => do
    let v ← s.value n
    return (v, s)
  | text t, s => .ok (.pointer s.memory.fresh, { s with memory := s.memory.allocate (literalCells t) })
  | size n, s => .ok (.size n, s)
  | nul, s => .ok (.char 0, s)
  | buffer n, s =>
    .ok (.pointer s.memory.fresh, { s with memory := s.memory.allocate (List.replicate n (some 0)) })
  | binary op l r, s => do
    let (left, s) ← l.eval call s
    let (right, s) ← r.eval call s
    let v ← s.memory.operate op left right
    return (v, s)
  | assign n e, s => do
    let (v, s) ← e.eval call s
    let s ← s.assign n v
    return (v, s)
  | .call f args, s => do
    let (values, s) ← evalAll call args s
    let (v, m) ← call f values s.memory
    return (v, { s with memory := m })
  | sizeOf n, s => do
    let capacity ← s.capacity n
    return (.size capacity, s)
  | room n, s => do
    -- `sizeof n - strlen(n) - 1`, and `-` is carried out from left to right
    let capacity ← s.capacity n
    let v ← s.value n
    let (used, _) ← call (.library .strlen) [v] s.memory
    let free ← s.memory.operate .sub (.size capacity) used
    let free ← s.memory.operate .sub free (.size 1)
    return (free, s)
  | long _, _ | double _, _ | first _, _ | toLong _, _ | addressOf _, _ => .error .misuse

/-- Evaluates expressions from left to right. -/
def evalAll (call : Routines) : List Expr → State → Except Fault (List Value × State)
  | [], s => .ok ([], s)
  | e :: es, s => do
    let (v, s) ← e.eval call s
    let (vs, s) ← evalAll call es s
    return (v :: vs, s)

end

end Expr

/-- The name a statement declares. -/
def Stmt.declares? : Stmt → Option Name
  | .buffer n _ | .declare _ n _ => some n
  | _ => none

namespace Stmt

mutual

/-- Carries out a statement; the value is that of the `return` it ends with, if it does. -/
def exec (call : Routines) : Stmt → State → Except Fault (Option Value × State)
  | expr e, s => do
    let (_, s) ← e.eval call s
    return (none, s)
  | ret e, s => do
    let (v, s) ← e.eval call s
    return (some v, s)
  | buffer n capacity, s =>
    .ok (none, ⟨s.memory.allocate (List.replicate capacity none), (s.declare n (.array s.memory.fresh.block)).names⟩)
  | declare _ n none, s => .ok (none, s.declare n (.scalar none))
  | declare _ n (some e), s => do
    let (v, s) ← e.eval call s
    return (none, s.declare n (.scalar (some v)))
  | store n i e, s => do
    let target ← s.value n
    let (index, s) ← i.eval call s
    let (v, s) ← e.eval call s
    match target, index, v with
    | .pointer p, .size k, .char byte => do
      let m ← s.memory.write (p.advance k) [some byte]
      return (none, { s with memory := m })
    | _, _, _ => .error .misuse
  | branch c a none, s => do
    let (v, s) ← c.eval call s
    let holds ← v.holds
    if holds then s.inside (a.filterMap declares?) (execAll call a) else return (none, s)
  | branch c a (some b), s => do
    let (v, s) ← c.eval call s
    let holds ← v.holds
    if holds then s.inside (a.filterMap declares?) (execAll call a) else s.inside (b.filterMap declares?) (execAll call b)
  | block b, s => s.inside (b.filterMap declares?) (execAll call b)
  | loop _ _, _ => .error .misuse

/-- Carries out statements in sequence, up to a `return`. -/
def execAll (call : Routines) : List Stmt → State → Except Fault (Option Value × State)
  | [], s => .ok (none, s)
  | t :: ts, s => do
    let (result, s) ← t.exec call s
    match result with
    | some v => return (some v, s)
    | none => execAll call ts s

end

end Stmt

/-! ### One rule for each construct -/

section Rules

variable {call : Routines} {s s' s'' : State} {n f : Name} {e e' : Expr} {es : List Expr} {v v' w : Value}
  {vs : List Value} {m : Memory} {t : Stmt} {ts : List Stmt} {result : Option Value}

theorem Expr.eval_name (h : s.value n = .ok v) : (Expr.name n).eval call s = .ok (v, s) :=
  bind_eq_ok_iff.2 ⟨v, h, rfl⟩

theorem Expr.eval_size (call : Routines) (s : State) (k : Nat) : (Expr.size k).eval call s = .ok (.size k, s) := rfl

theorem Expr.eval_text (call : Routines) (s : State) (t : String) : (Expr.text t).eval call s =
    .ok (.pointer s.memory.fresh, { s with memory := s.memory.allocate (literalCells t) }) := rfl

theorem Expr.eval_buffer (call : Routines) (s : State) (k : Nat) : (Expr.buffer k).eval call s =
    .ok (.pointer s.memory.fresh, { s with memory := s.memory.allocate (List.replicate k (some 0)) }) := rfl

theorem Expr.eval_sizeOf {k : Nat} (h : s.capacity n = .ok k) : (Expr.sizeOf n).eval call s = .ok (.size k, s) :=
  bind_eq_ok_iff.2 ⟨k, h, rfl⟩

theorem Expr.eval_binary {op : BinOp} (hl : e.eval call s = .ok (v, s')) (hr : e'.eval call s' = .ok (v', s''))
    (h : s''.memory.operate op v v' = .ok w) : (Expr.binary op e e').eval call s = .ok (w, s'') :=
  bind_eq_ok_iff.2 ⟨_, hl, bind_eq_ok_iff.2 ⟨_, hr, bind_eq_ok_iff.2 ⟨w, h, rfl⟩⟩⟩

theorem Expr.eval_assign (he : e.eval call s = .ok (v, s')) (h : s'.assign n v = .ok s'') :
    (Expr.assign n e).eval call s = .ok (v, s'') :=
  bind_eq_ok_iff.2 ⟨_, he, bind_eq_ok_iff.2 ⟨s'', h, rfl⟩⟩

theorem Expr.evalAll_nil (call : Routines) (s : State) : evalAll call [] s = .ok ([], s) := rfl

theorem Expr.evalAll_cons (he : e.eval call s = .ok (v, s')) (hes : evalAll call es s' = .ok (vs, s'')) :
    evalAll call (e :: es) s = .ok (v :: vs, s'') :=
  bind_eq_ok_iff.2 ⟨_, he, bind_eq_ok_iff.2 ⟨_, hes, rfl⟩⟩

theorem Expr.eval_call (hes : evalAll call es s = .ok (vs, s')) (h : call f vs s'.memory = .ok (v, m)) :
    (Expr.call f es).eval call s = .ok (v, { s' with memory := m }) :=
  bind_eq_ok_iff.2 ⟨_, hes, bind_eq_ok_iff.2 ⟨_, h, rfl⟩⟩

theorem Stmt.exec_expr (h : e.eval call s = .ok (v, s')) : (Stmt.expr e).exec call s = .ok (none, s') :=
  bind_eq_ok_iff.2 ⟨_, h, rfl⟩

theorem Stmt.exec_buffer (call : Routines) (s : State) (n : Name) (k : Nat) : (Stmt.buffer n k).exec call s =
    .ok (none, ⟨s.memory.allocate (List.replicate k none), (s.declare n (.array s.memory.fresh.block)).names⟩) := rfl

theorem Stmt.exec_block (h : execAll call ts s = .ok (result, s')) : (Stmt.block ts).exec call s =
    .ok (result, { s' with names := fun k => if k ∈ ts.filterMap declares? then s.names k else s'.names k }) :=
  State.inside_eq_ok h

theorem Stmt.exec_declare {ty : DeclTy} (h : e.eval call s = .ok (v, s')) :
    (Stmt.declare ty n (some e)).exec call s = .ok (none, s'.declare n (.scalar (some v))) :=
  bind_eq_ok_iff.2 ⟨_, h, rfl⟩

/-- Storing a character writes it to its place. -/
theorem Stmt.exec_store {p : Pointer} {k : Nat} {byte : UInt8} (hn : s.value n = .ok (.pointer p))
    (hi : e.eval call s = .ok (.size k, s')) (he : e'.eval call s' = .ok (.char byte, s''))
    (h : s''.memory.write (p.advance k) [some byte] = .ok m) :
    (Stmt.store n e e').exec call s = .ok (none, { s'' with memory := m }) :=
  bind_eq_ok_iff.2 ⟨_, hn, bind_eq_ok_iff.2 ⟨_, hi, bind_eq_ok_iff.2 ⟨_, he,
    bind_eq_ok_iff.2 ⟨m, h, rfl⟩⟩⟩⟩

theorem Stmt.exec_branch_of_holds (hc : e.eval call s = .ok (v, s')) (hv : v.holds = .ok true)
    (h : s'.inside (ts.filterMap declares?) (execAll call ts) = .ok (result, s'')) :
    (Stmt.branch e ts none).exec call s = .ok (result, s'') :=
  bind_eq_ok_iff.2 ⟨_, hc, bind_eq_ok_iff.2 ⟨_, hv, h⟩⟩

theorem Stmt.exec_branch_of_not_holds (hc : e.eval call s = .ok (v, s')) (hv : v.holds = .ok false) :
    (Stmt.branch e ts none).exec call s = .ok (none, s') :=
  bind_eq_ok_iff.2 ⟨_, hc, bind_eq_ok_iff.2 ⟨_, hv, rfl⟩⟩

theorem Stmt.execAll_nil (call : Routines) (s : State) : execAll call [] s = .ok (none, s) := rfl

theorem Stmt.execAll_cons (h : t.exec call s = .ok (none, s')) (hs : execAll call ts s' = .ok (result, s'')) :
    execAll call (t :: ts) s = .ok (result, s'') :=
  bind_eq_ok_iff.2 ⟨_, h, hs⟩

/-- Statements that come to their end are followed by those behind them. -/
theorem Stmt.execAll_append {us : List Stmt} (hts : execAll call ts s = .ok (none, s'))
    (hus : execAll call us s' = .ok (result, s'')) : execAll call (ts ++ us) s = .ok (result, s'') := by
  induction ts generalizing s with
  | nil =>
    cases hts
    exact hus
  | cons t ts ih =>
    obtain ⟨⟨outcome, after⟩, ht, hrest⟩ := bind_eq_ok_iff.1 hts
    cases outcome with
    | none => exact execAll_cons ht (ih hrest)
    | some v => cases hrest

theorem Stmt.execAll_ret (h : e.eval call s = .ok (v, s')) : execAll call (.ret e :: ts) s = .ok (some v, s') := by
  have hret : (Stmt.ret e).exec call s = .ok (some v, s') := bind_eq_ok_iff.2 ⟨_, h, rfl⟩
  exact bind_eq_ok_iff.2 ⟨_, hret, rfl⟩

end Rules

/-- The state in which a function starts: its parameters hold the arguments, and no other name is declared. -/
def Function.entry (f : Function) (args : List Value) (m : Memory) : State :=
  ⟨m, fun n => (((f.params.map Param.name).zip args).lookup n).map fun v => .scalar (some v)⟩

/-- Runs a function on arguments, up to the `return` it has to end with. -/
def Function.run (call : Routines) (f : Function) (args : List Value) (m : Memory) : Except Fault (Value × Memory) := do
  let (result, s) ← Stmt.execAll call f.body (f.entry args m)
  match result with
  | some v => return (v, s.memory)
  | none => .error .misuse

theorem Function.run_eq_ok {call : Routines} {f : Function} {args : List Value} {m : Memory} {v : Value} {s : State}
    (h : Stmt.execAll call f.body (f.entry args m) = .ok (some v, s)) : f.run call args m = .ok (v, s.memory) :=
  bind_eq_ok_iff.2 ⟨_, h, rfl⟩

/-- The functions of the library and the helper routines, with so many calls of helpers inside each other. -/
def routines : Nat → Routines
  | _, .library l, args, m => m.library l args
  -- the body of a helper may call one helper less deep than its caller
  | depth + 1, .helper h, args, m => h.function.run (routines depth) args m
  | _, _, _, _ => .error .misuse

theorem routines_library (depth : Nat) (l : Library) (args : List Value) (m : Memory) :
    routines depth (.library l) args m = m.library l args := by
  cases depth <;> rfl

end ImpC.C
