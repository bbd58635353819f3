import ImpC.C.Definition
import ImpC.Proofs.Build.Step
import ImpC.Proofs.C.Types

/-!
# Running code that works on integers

What the code of an emitted program does with integers, and what C leaves undefined there. An operation is carried out in
the type to which both operands are converted. Its exact result has to be a value of that type; for division and remainder
it is the quotient that has to be, and the divisor must not be zero (`ValueTy.operate`). Everything else is
`Stop.undefined`.

A `Setting` has the rest of C, about which nothing is assumed: what the functions of the program and of the library do, the
values of expressions that are not about integers, and operations on such values. In `Setting.withGuards` the functions for
messages and for leaving the program are those of the standard, and the routines for the division of integers are run: a
call of one carries out the body of its definition (`Function.compute`). Arguments and operands are evaluated from left to
right.
-/

namespace ImpC.C

/-! ### Numbers -/

/-- A number of an integer type. -/
inductive Number where
  | int (value : Int32)
  | long (value : Int64)
  deriving DecidableEq, Repr, Inhabited

namespace Number

/-- The type of a number. -/
def ty : Number → ValueTy
  | int _ => .int
  | long _ => .long

/-- The number itself. -/
def toInt : Number → Int
  | int v => v.toInt
  | long v => v.toInt

/-- The number as a `long long`. -/
def widen : Number → Int64
  | int v => v.toInt64
  | long v => v

theorem toInt_widen (a : Number) : a.widen.toInt = a.toInt := by
  cases a with
  | int v => exact Int32.toInt_toInt64 v
  | long v => rfl

/-- The outcome of a comparison. -/
def flag (holds : Bool) : Number := .int (if holds then 1 else 0)

theorem toInt_flag_ne_zero_iff (holds : Bool) : (flag holds).toInt ≠ 0 ↔ holds = true := by
  cases holds <;> decide

end Number

/-- How a program ends before its end. -/
inductive Stop where
  /-- The program reports that it has failed, and has written this to its error stream. -/
  | failure (errors : String)
  /-- C does not say what happens. -/
  | undefined
  /-- The code uses something for what it is not. -/
  | misuse
  deriving DecidableEq, Repr, Inhabited

namespace ValueTy

/-- The values of an integer type. -/
def Represents : ValueTy → Int → Prop
  | int, z => Int32.minValue.toInt ≤ z ∧ z ≤ Int32.maxValue.toInt
  | long, z => Int64.minValue.toInt ≤ z ∧ z ≤ Int64.maxValue.toInt
  | double, _ | chars, _ => False

instance (ty : ValueTy) (z : Int) : Decidable (ty.Represents z) :=
  match ty with
  | int => inferInstanceAs (Decidable (Int32.minValue.toInt ≤ z ∧ z ≤ Int32.maxValue.toInt))
  | long => inferInstanceAs (Decidable (Int64.minValue.toInt ≤ z ∧ z ≤ Int64.maxValue.toInt))
  | double | chars => inferInstanceAs (Decidable False)

/-- The number of an integer type with the given value. An exact result outside of the type is not defined. -/
def number (ty : ValueTy) (z : Int) : Except Stop Number :=
  if ty.Represents z then .ok (if ty = .int then .int (.ofInt z) else .long (.ofInt z)) else .error .undefined

/-- An operation in an integer type. The remainder is defined where the quotient is. -/
def operate (ty : ValueTy) : BinOp → Int → Int → Except Stop Number
  | .add, x, y => ty.number (x + y)
  | .sub, x, y => ty.number (x - y)
  | .mul, x, y => ty.number (x * y)
  | .div, x, y => if y = 0 then .error .undefined else ty.number (x.tdiv y)
  | .mod, x, y =>
    if y = 0 then .error .undefined else do
      let _ ← ty.number (x.tdiv y)
      ty.number (x.tmod y)
  | .eq, x, y => .ok (.flag (x = y))
  | .ne, x, y => .ok (.flag (x ≠ y))
  | .lt, x, y => .ok (.flag (x < y))
  | .le, x, y => .ok (.flag (x ≤ y))
  | .gt, x, y => .ok (.flag (x > y))
  | .ge, x, y => .ok (.flag (x ≥ y))

/-- A number has at most 64 bits. -/
theorem represents_toInt (a : Number) : long.Represents a.toInt := by
  rw [← a.toInt_widen]
  exact ⟨a.widen.minValue_le_toInt, a.widen.toInt_le⟩

theorem number_long {z : Int} (h : long.Represents z) : long.number z = .ok (.long (.ofInt z)) := if_pos h

theorem number_eq_undefined {ty : ValueTy} {z : Int} (h : ¬ ty.Represents z) : ty.number z = .error .undefined := if_neg h

end ValueTy

/-! ### Expressions and statements -/

/-- The value of an expression. -/
inductive Operand where
  | number (n : Number)
  | double (x : Binary64)
  | text (s : String)
  /-- The stream for errors. -/
  | errors
  /-- The status that reports failure. -/
  | failure
  deriving DecidableEq, Repr, Inhabited

/-- The value as one of a declared type. -/
def Operand.convert : DeclTy → Operand → Except Stop Operand
  | .long, number n => .ok (number (.long n.widen))
  | .int, number (.int v) => .ok (number (.int v))
  | .double, double x => .ok (double x)
  | _, _ => .error .misuse

/-- The values of the names that are declared, and what has been written to the stream for errors. -/
structure Machine where
  names : Name → Option Operand
  errors : String

/-- The value of a name. -/
def Machine.value (m : Machine) : Name → Except Stop Operand
  | .library .stderr => .ok .errors
  | .library .exitFailure => .ok .failure
  | n => (m.names n).elim (.error .misuse) .ok

/-- Assigns a variable, as a value of the type that it holds. -/
def Machine.assign (m : Machine) (n : Name) (v : Operand) : Except Stop (Operand × Machine) := do
  let v ← match m.names n, v with
    | some (.number (.long _)), v => v.convert .long
    | some (.double _), v => v.convert .double
    | some (.text _), .text s => .ok (.text s)
    | _, _ => .error .misuse
  return (v, { m with names := fun k => if k = n then some v else m.names k })

/-- What C does where no integers are involved. -/
structure Setting where
  call : Name → List Operand → Machine → Except Stop (Operand × Machine)
  value : Expr → Machine → Except Stop (Operand × Machine)
  operate : BinOp → Operand → Operand → Except Stop Operand

/-- An operation on two values. -/
def Setting.binary (s : Setting) (op : BinOp) : Operand → Operand → Except Stop Operand
  | .number a, .number b =>
    match a.ty.common? b.ty with
    | some ty => .number <$> ty.operate op a.toInt b.toInt
    | none => .error .misuse
  | left, right => s.operate op left right

namespace Expr

mutual

/-- Evaluates an expression. -/
def compute (s : Setting) : Expr → Machine → Except Stop (Operand × Machine)
  | name n, m => do
    let v ← m.value n
    return (v, m)
  | long v, m => .ok (.number (.long v), m)
  | size n, m => do
    -- a constant without a suffix is an `int` if it fits
    let n ← if ValueTy.int.Represents n then ValueTy.int.number n else ValueTy.long.number n
    return (.number n, m)
  | double x, m => .ok (.double x, m)
  | text t, m => .ok (.text t, m)
  | nul, m => .ok (.number (.int 0), m)
  | binary op l r, m => do
    let (left, m) ← l.compute s m
    let (right, m) ← r.compute s m
    let v ← s.binary op left right
    return (v, m)
  | assign n e, m => do
    let (v, m) ← e.compute s m
    m.assign n v
  | .call f args, m => do
    let (values, m) ← computeAll s args m
    s.call f values m
  | toLong e, m => do
    let (v, m) ← e.compute s m
    let v ← v.convert .long
    return (v, m)
  | e@(buffer _), m | e@(first _), m | e@(sizeOf _), m | e@(room _), m | e@(addressOf _), m => s.value e m

/-- Evaluates expressions from left to right. -/
def computeAll (s : Setting) : List Expr → Machine → Except Stop (List Operand × Machine)
  | [], m => .ok ([], m)
  | e :: es, m => do
    let (v, m) ← e.compute s m
    let (vs, m) ← computeAll s es m
    return (v :: vs, m)

end

end Expr

namespace Stmt

mutual

/-- Carries out a statement; the value is that of the `return` it ends with, if it does. Variables of its own and loops
are not among what a routine for integers has. -/
def perform (s : Setting) : Stmt → Machine → Except Stop (Option Operand × Machine)
  | expr e, m => do
    let (_, m) ← e.compute s m
    return (none, m)
  | ret e, m => do
    let (v, m) ← e.compute s m
    return (some v, m)
  | branch c a none, m => do
    let (v, m) ← c.compute s m
    match v with
    | .number n => if n.toInt ≠ 0 then performAll s a m else return (none, m)
    | _ => .error .misuse
  | branch c a (some b), m => do
    let (v, m) ← c.compute s m
    match v with
    | .number n => if n.toInt ≠ 0 then performAll s a m else performAll s b m
    | _ => .error .misuse
  | buffer _ _, _ | declare _ _ _, _ | store _ _ _, _ | loop _ _, _ | block _, _ => .error .misuse

/-- Carries out statements in sequence, up to a `return`. -/
def performAll (s : Setting) : List Stmt → Machine → Except Stop (Option Operand × Machine)
  | [], m => .ok (none, m)
  | t :: ts, m => do
    let (result, m) ← t.perform s m
    match result with
    | some v => return (some v, m)
    | none => performAll s ts m

end

end Stmt

namespace Function

/-- The values of the parameters, by their names, when a function is called with arguments. -/
def received : List Param → List Operand → Except Stop (List (Name × Operand))
  | [], [] => .ok []
  | p :: ps, v :: vs => do
    let v ← v.convert p.ty
    let rest ← received ps vs
    return (p.name, v) :: rest
  | _, _ => .error .misuse

/-- Runs a function on arguments, up to the `return` it has to end with. The names of the caller stand again for what they
stood for behind it. -/
def compute (s : Setting) (f : Function) (args : List Operand) (m : Machine) : Except Stop (Operand × Machine) := do
  let names ← received f.params args
  let (result, inner) ← Stmt.performAll s f.body ⟨(names.lookup ·), m.errors⟩
  match result with
  | some v => do
    let v ← v.convert f.returns
    return (v, { m with errors := inner.errors })
  | none => .error .misuse

end Function

namespace Setting

/-- With the functions of the library for messages and for leaving the program. A message without a conversion is written
as it is. -/
def withLibrary (s : Setting) : Setting :=
  { s with
    call := fun f args m =>
      match f, args with
      | .library .fprintf, [.errors, .text message] =>
        if '%' ∈ message.toList then .error .misuse
        else .ok (.number (.int (.ofNat message.utf8ByteSize)), { m with errors := m.errors ++ message })
      | .library .exit, [.failure] => .error (.failure m.errors)
      | f, args => s.call f args m }

/-- With the routines for the division of integers as well, which are run. -/
def withGuards (s : Setting) : Setting :=
  { s.withLibrary with
    call := fun f args m =>
      match f with
      | .helper .divInt => Helper.divInt.function.compute s.withLibrary args m
      | .helper .modInt => Helper.modInt.function.compute s.withLibrary args m
      | f => s.withLibrary.call f args m }

end Setting

/-! ### One rule for each construct -/

section Rules

variable {s : Setting} {m m' m'' : Machine} {l r e : Expr} {a b : Number} {n : Name} {v w : Operand} {t : Stmt}
  {ts : List Stmt} {stop : Stop}

theorem Expr.compute_name (h : m.value n = .ok v) : (Expr.name n).compute s m = .ok (v, m) :=
  bind_eq_ok_iff.2 ⟨v, h, rfl⟩

/-- An operation on numbers is carried out in their common type. -/
theorem Expr.compute_binary {op : BinOp} {ty : ValueTy} (hl : l.compute s m = .ok (.number a, m'))
    (hr : r.compute s m' = .ok (.number b, m'')) (hty : a.ty.common? b.ty = some ty) :
    (Expr.binary op l r).compute s m = (ty.operate op a.toInt b.toInt).map fun c => (.number c, m'') := by
  have hbinary : s.binary op (.number a) (.number b) = .number <$> ty.operate op a.toInt b.toInt := by
    rw [Setting.binary, hty]
  show (l.compute s m >>= _) = _
  rw [hl]
  show (r.compute s m' >>= fun p => s.binary op (.number a) p.1 >>= fun v => .ok (v, p.2)) = _
  rw [hr]
  show (s.binary op (.number a) (.number b) >>= fun v => .ok (v, m'')) = _
  rw [hbinary]
  cases ty.operate op a.toInt b.toInt with
  | error | ok => rfl

theorem Expr.computeAll_pair (hl : l.compute s m = .ok (v, m')) (hr : r.compute s m' = .ok (w, m'')) :
    computeAll s [l, r] m = .ok ([v, w], m'') :=
  bind_eq_ok_iff.2 ⟨_, hl, bind_eq_ok_iff.2 ⟨_, bind_eq_ok_iff.2 ⟨_, hr, rfl⟩, rfl⟩⟩

theorem Expr.compute_call {f : Name} {args : List Expr} {values : List Operand}
    (h : computeAll s args m = .ok (values, m')) : (Expr.call f args).compute s m = s.call f values m' := by
  show (computeAll s args m >>= _) = _
  rw [h]
  rfl

/-- What stops the second argument stops the call. -/
theorem Expr.compute_call_pair_of_error {f : Name} (hl : l.compute s m = .ok (v, m')) (hr : r.compute s m' = .error stop) :
    (Expr.call f [l, r]).compute s m = .error stop := by
  have hargs : computeAll s [l, r] m = .error stop := by
    show (l.compute s m >>= _) = _
    rw [hl]
    show ((r.compute s m' >>= _) >>= _) = _
    rw [hr]
    rfl
  show (computeAll s [l, r] m >>= _) = _
  rw [hargs]
  rfl

theorem Stmt.performAll_of_continues (h : t.perform s m = .ok (none, m')) :
    performAll s (t :: ts) m = performAll s ts m' := by
  show (t.perform s m >>= _) = _
  rw [h]
  rfl

/-- What stops a statement stops those behind it. -/
theorem Stmt.performAll_of_error (h : t.perform s m = .error stop) : performAll s (t :: ts) m = .error stop := by
  show (t.perform s m >>= _) = _
  rw [h]
  rfl

theorem Stmt.performAll_expr (h : e.compute s m = .ok (v, m')) : performAll s (.expr e :: ts) m = performAll s ts m' :=
  performAll_of_continues (bind_eq_ok_iff.2 ⟨_, h, rfl⟩)

theorem Stmt.performAll_expr_of_error (h : e.compute s m = .error stop) :
    performAll s (.expr e :: ts) m = .error stop := by
  apply performAll_of_error
  show (e.compute s m >>= _) = _
  rw [h]
  rfl

theorem Stmt.performAll_ret (s : Setting) (e : Expr) (ts : List Stmt) (m : Machine) :
    performAll s (.ret e :: ts) m = (e.compute s m).map fun p => (some p.1, p.2) := by
  show ((e.compute s m >>= _) >>= _) = _
  cases e.compute s m with
  | error | ok => rfl

/-- A branch is carried out where its condition is not zero. -/
theorem Stmt.perform_branch {us : List Stmt} (h : e.compute s m = .ok (.number a, m')) :
    (Stmt.branch e us none).perform s m = if a.toInt ≠ 0 then performAll s us m' else .ok (none, m') := by
  show (e.compute s m >>= _) = _
  rw [h]
  rfl

theorem Stmt.performAll_branch_of_zero {us : List Stmt} (h : e.compute s m = .ok (.number a, m')) (ha : a.toInt = 0) :
    performAll s (.branch e us none :: ts) m = performAll s ts m' := by
  apply performAll_of_continues
  rw [perform_branch h, if_neg (fun hne => hne ha)]

/-- Where the condition holds and the branch stops, nothing behind it is carried out. -/
theorem Stmt.performAll_branch_of_error {us : List Stmt} (h : e.compute s m = .ok (.number a, m')) (ha : a.toInt ≠ 0)
    (hstop : performAll s us m' = .error stop) : performAll s (.branch e us none :: ts) m = .error stop := by
  apply performAll_of_error
  rw [perform_branch h, if_pos ha, hstop]

end Rules

end ImpC.C
