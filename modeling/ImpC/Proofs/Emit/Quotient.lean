import ImpC.Proofs.Build.Client
import ImpC.Proofs.C.Integers
import ImpC.Proofs.Emit.Relation
import ImpC.Proofs.Emit.Totality

/-!
# Which divisions of integers are defined

The routines for division and remainder of integers look at the divisor and stop the program if it is zero. They apply the
operator of C to every other pair of operands. Its quotient has to be a value of the type, and among all pairs of 64 bits
there is one for which it is not: the least number divided by minus one (`C.ValueTy.represents_tdiv_iff`).

`Emit.guarded_division` says what the code for a division does on all operands, whatever expressions they come from: it stops
with its message exactly if the divisor is zero, is not defined for that one pair, and gives the quotient or remainder for
every other. The pair is not excluded by anything in front of the routine. Literals are enough to make a program whose run is
not defined (`Session.Run.division_undefined`).
-/

namespace ImpC

namespace C

namespace ValueTy

variable {a b : Number} {x y : Int} {op : BinOp}

/-- **The one quotient that is too large.** -/
theorem represents_tdiv_iff (hb : b.toInt ≠ 0) :
    long.Represents (a.toInt.tdiv b.toInt) ↔ ¬ (a.toInt = Int64.minValue.toInt ∧ b.toInt = -1) := by
  have hrange := represents_toInt a
  unfold Represents at hrange ⊢
  rw [Int64.toInt_minValue, Int64.toInt_maxValue] at hrange ⊢
  by_cases hone : b.toInt.natAbs = 1
  · -- a quotient by one or minus one is the dividend up to its sign
    obtain hpos | hneg : b.toInt = 1 ∨ b.toInt = -1 := by omega
    · rw [hpos, Int.tdiv_one]
      omega
    · rw [hneg, Int.tdiv_neg, Int.tdiv_one]
      omega
  · -- every other quotient has at most half the size of the dividend
    have hhalf : (a.toInt.tdiv b.toInt).natAbs ≤ a.toInt.natAbs / 2 := by
      rw [Int.natAbs_tdiv]
      exact Nat.div_le_div_left (by omega) (by omega)
    omega

theorem represents_tmod (hb : b.toInt ≠ 0) : long.Represents (a.toInt.tmod b.toInt) := by
  have hrange := represents_toInt b
  have hless : (a.toInt.tmod b.toInt).natAbs < b.toInt.natAbs := by
    rw [Int.natAbs_tmod]
    exact Nat.mod_lt _ (by omega)
  unfold Represents at hrange ⊢
  rw [Int64.toInt_minValue, Int64.toInt_maxValue] at hrange ⊢
  omega

theorem operate_long_of_represents (hop : op = .div ∨ op = .mod) (hb : b.toInt ≠ 0)
    (h : long.Represents (a.toInt.tdiv b.toInt)) :
    long.operate op a.toInt b.toInt =
      .ok (.long (.ofInt (if op = .div then a.toInt.tdiv b.toInt else a.toInt.tmod b.toInt))) := by
  obtain rfl | rfl := hop
  · rw [operate, if_neg hb]
    exact number_long h
  · rw [operate, if_neg hb, number_long h]
    exact number_long (represents_tmod hb)

theorem operate_long_of_not_represents (hop : op = .div ∨ op = .mod) (h : ¬ long.Represents (x.tdiv y)) :
    long.operate op x y = .error .undefined := by
  obtain rfl | rfl := hop
  · rw [operate, number_eq_undefined h, ite_self]
  · rw [operate, number_eq_undefined h]
    exact ite_self _

end ValueTy

/-! ### Running the routines -/

namespace Helper

variable {h : Helper} {op : BinOp} {operation : String} {m : Machine} {a b : Number}

/-- The routine that looks at the divisor and applies an operator to integers. -/
def guardInt (h : Helper) (operation : String) (op : BinOp) : Function :=
  guardFunction h .long (.size 0) operation (.binary op (.inner "left") (.inner "right"))

/-- The message of the routine. -/
def diagnostic (operation : String) : String := "runtime error: " ++ operation ++ " by zero\n"

/-- The machine in which the body of the routine starts. -/
def guardEntry (a b : Number) (errors : String) : Machine :=
  ⟨([(.inner "left", .number (.long a.widen)), (.inner "right", .number (.long b.widen))].lookup ·), errors⟩

theorem value_left (a b : Number) (errors : String) :
    (guardEntry a b errors).value (.inner "left") = .ok (.number (.long a.widen)) := rfl

theorem value_right (a b : Number) (errors : String) :
    (guardEntry a b errors).value (.inner "right") = .ok (.number (.long b.widen)) := rfl

/-- The routine looks at the divisor, converted to its own type. -/
theorem compute_test (s : Setting) (a b : Number) (errors : String) :
    (Expr.binary .eq (.inner "right") (.size 0)).compute s (guardEntry a b errors) =
      .ok (.number (.flag (b.toInt = 0)), guardEntry a b errors) := by
  rw [Expr.compute_binary (Expr.compute_name (value_right a b errors)) (b := .int 0) rfl rfl]
  show Except.ok (Operand.number (.flag (b.widen.toInt = 0)), _) = _
  rw [b.toInt_widen]

/-- The routine runs its body on the operands, converted to its own type. -/
theorem compute_guardInt (s : Setting) (h : Helper) (operation : String) (op : BinOp) (a b : Number) (m : Machine) :
    (guardInt h operation op).compute s [.number a, .number b] m =
      (Stmt.performAll s (guardInt h operation op).body (guardEntry a b m.errors) >>= fun p =>
        match p.1 with
        | some v => v.convert .long >>= fun v => .ok (v, { m with errors := p.2.errors })
        | none => .error .misuse) := rfl

/-- **A divisor that is zero.** The routine writes its message and stops the program. -/
theorem compute_guardInt_of_zero (s : Setting) (hmessage : '%' ∉ (diagnostic operation).toList) (hb : b.toInt = 0) :
    (guardInt h operation op).compute s.withLibrary [.number a, .number b] m =
      .error (.failure (m.errors ++ diagnostic operation)) := by
  have hreport : (Expr.call (.library .fprintf) [.name (.library .stderr), .text (diagnostic operation)]).compute
      s.withLibrary (guardEntry a b m.errors) =
        .ok (.number (.int (.ofNat (diagnostic operation).utf8ByteSize)),
          guardEntry a b (m.errors ++ diagnostic operation)) := by
    rw [Expr.compute_call (Expr.computeAll_pair (Expr.compute_name rfl) rfl)]
    exact if_neg hmessage
  have hexit : (Expr.call (.library .exit) [.name (.library .exitFailure)]).compute s.withLibrary
      (guardEntry a b (m.errors ++ diagnostic operation)) = .error (.failure (m.errors ++ diagnostic operation)) := rfl
  have hbody : Stmt.performAll s.withLibrary (guardInt h operation op).body (guardEntry a b m.errors) =
      .error (.failure (m.errors ++ diagnostic operation)) := by
    apply Stmt.performAll_branch_of_error (compute_test s.withLibrary a b m.errors)
    · exact (Number.toInt_flag_ne_zero_iff _).2 (decide_eq_true hb)
    · exact (Stmt.performAll_expr hreport).trans (Stmt.performAll_expr_of_error hexit)
  rw [compute_guardInt, hbody]
  rfl

/-- **Any other divisor.** The routine applies the operator. -/
theorem compute_guardInt_of_ne_zero (s : Setting) (hb : b.toInt ≠ 0) :
    (guardInt h operation op).compute s [.number a, .number b] m =
      (ValueTy.long.operate op a.toInt b.toInt).map fun c => (.number (.long c.widen), m) := by
  have hvalue : (Expr.binary op (.inner "left") (.inner "right")).compute s (guardEntry a b m.errors) =
      (ValueTy.long.operate op a.toInt b.toInt).map fun c => (.number c, guardEntry a b m.errors) := by
    rw [← a.toInt_widen, ← b.toInt_widen]
    exact Expr.compute_binary (Expr.compute_name (value_left ..)) (Expr.compute_name (value_right ..)) rfl
  have hbody : Stmt.performAll s (guardInt h operation op).body (guardEntry a b m.errors) =
      (ValueTy.long.operate op a.toInt b.toInt).map fun c => (some (.number c), guardEntry a b m.errors) := by
    have htest : (Number.flag (b.toInt = 0)).toInt = 0 := by
      rw [decide_eq_false hb]
      rfl
    rw [guardInt, guardFunction]
    refine (Stmt.performAll_branch_of_zero (compute_test s a b m.errors) htest).trans ?_
    rw [Stmt.performAll_ret, hvalue]
    cases ValueTy.long.operate op a.toInt b.toInt with
    | error | ok => rfl
  rw [compute_guardInt, hbody]
  cases ValueTy.long.operate op a.toInt b.toInt with
  | error | ok => rfl

end Helper

end C

/-! ### The code for a division -/

namespace Emit

open C (Expr Setting Machine Number)

/-- The word for an operation in the message of its routine. -/
def operationWord (op : BinOp) : String := if op = .div then "division" else "modulo"

/-- The emitted code calls the routine for integers, unless the node is a float. -/
theorem call_guardInt {op : BinOp} {ty : Option Ty} (hop : op = .div ∨ op = .mod) (hty : ty ≠ some .float)
    (o : EmitOptions) (leftTy : Option Ty) (left right : Expr) (s : Setting) :
    ∃ h, operation o op ty leftTy left right = .call (.helper h) [left, right] ∧
      ∀ args m, s.withGuards.call (.helper h) args m =
        (C.Helper.guardInt h (operationWord op) op).compute s.withLibrary args m := by
  obtain rfl | rfl := hop
  · refine ⟨.divInt, ?_, fun args m => rfl⟩
    rw [operation, if_neg hty]
  · refine ⟨.modInt, ?_, fun args m => rfl⟩
    rw [operation, if_neg hty]

/-- **What the code for a division of integers does.** Let the operands of a division or remainder have the values `a` and
`b`, in whatever way the expressions for them come to these. The code stops the program with its message exactly if `b` is
zero. Otherwise it applies the operator of C, and gives its result if the quotient is a `long long`. This is so for all
operands except one pair, the least number and minus one, for which the operation is not defined. -/
theorem guarded_division {o : EmitOptions} {op : BinOp} {ty : Option Ty} {l r : Node} {e : Expr}
    (hop : op = .div ∨ op = .mod) (hty : ty ≠ some .float) (he : expr o ⟨.binary op l r, ty⟩ = .ok e) :
    ∃ left right, expr o l = .ok left ∧ expr o r = .ok right ∧
      ∀ (s : Setting) (m m' m'' : Machine) (a b : Number),
        left.compute s.withGuards m = .ok (.number a, m') → right.compute s.withGuards m' = .ok (.number b, m'') →
        e.compute s.withGuards m =
          (if b.toInt = 0 then
            .error (.failure (m''.errors ++ ("runtime error: " ++ operationWord op ++ " by zero\n")))
          else if C.ValueTy.long.Represents (a.toInt.tdiv b.toInt) then
            .ok (.number (.long (.ofInt (if op = .div then a.toInt.tdiv b.toInt else a.toInt.tmod b.toInt))), m'')
          else .error .undefined) ∧
        (b.toInt ≠ 0 →
          (¬ C.ValueTy.long.Represents (a.toInt.tdiv b.toInt) ↔ a.toInt = Int64.minValue.toInt ∧ b.toInt = -1)) := by
  obtain ⟨left, hl, he⟩ := bind_eq_ok_iff.1 he
  obtain ⟨right, hr, he⟩ := bind_eq_ok_iff.1 he
  cases he
  refine ⟨left, right, hl, hr, fun s m m' m'' a b ha hb => ?_⟩
  refine ⟨?_, fun hzero => (not_congr (C.ValueTy.represents_tdiv_iff hzero)).trans Decidable.not_not⟩
  obtain ⟨h, hcall, hroutine⟩ := call_guardInt hop hty o l.ty left right s
  rw [hcall, Expr.compute_call (Expr.computeAll_pair ha hb), hroutine]
  by_cases hzero : b.toInt = 0
  · have hmessage : '%' ∉ (C.Helper.diagnostic (operationWord op)).toList := by
      obtain rfl | rfl := hop <;> decide
    rw [if_pos hzero, C.Helper.compute_guardInt_of_zero s hmessage hzero]
    rfl
  · rw [if_neg hzero, C.Helper.compute_guardInt_of_ne_zero s.withLibrary hzero]
    by_cases hquotient : C.ValueTy.long.Represents (a.toInt.tdiv b.toInt)
    · rw [if_pos hquotient, C.ValueTy.operate_long_of_represents hop hzero hquotient]
      rfl
    · rw [if_neg hquotient, C.ValueTy.operate_long_of_not_represents hop hquotient]
      rfl

/-- The remainder of seven by minus two is one, and by zero there is the message only. -/
theorem guarded_division_literals :
    (∀ (s : Setting) (m : Machine), (Expr.call (.helper .modInt) [.long 7, .long (-2)]).compute s.withGuards m =
      .ok (.number (.long 1), m)) ∧
    ∀ (s : Setting) (m : Machine), (Expr.call (.helper .modInt) [.long 7, .long 0]).compute s.withGuards m =
      .error (.failure (m.errors ++ "runtime error: modulo by zero\n")) := by
  constructor
  · intro s m
    obtain ⟨left, right, hl, hr, hvalue⟩ := guarded_division (o := {}) (l := ⟨.int 7, some .int⟩)
      (r := ⟨.int (-2), some .int⟩) (.inr rfl) (by decide : some Ty.int ≠ some .float) rfl
    cases hl
    cases hr
    exact (hvalue s m m m (.long 7) (.long (-2)) rfl rfl).1
  · intro s m
    obtain ⟨left, right, hl, hr, hvalue⟩ := guarded_division (o := {}) (l := ⟨.int 7, some .int⟩)
      (r := ⟨.int 0, some .int⟩) (.inr rfl) (by decide : some Ty.int ≠ some .float) rfl
    cases hl
    cases hr
    exact (hvalue s m m m (.long 7) (.long 0) rfl rfl).1

end Emit

namespace Session

open C (Setting Machine Stmt)

/-- Prints the least number divided by minus one, or its remainder. -/
def leastByMinusOne (op : BinOp) : Draft :=
  .construct (.print (.construct (.binary op (.construct (.int Int64.minValue)) (.construct (.int (-1))))))

/-- The draft can be built and emitted, and no setting defines what the program does. -/
theorem exists_run_leastByMinusOne {op : BinOp} (hop : op = .div ∨ op = .mod) :
    ∃ s root p, Run {} start s ∧ (leastByMinusOne op).build.exec {} .empty = (.ok root, s.env) ∧
      Emit.program {} s.env root = .ok p ∧
      ∀ (c : Setting) (m : Machine), Stmt.performAll c.withGuards p.main.body m = .error .undefined := by
  obtain ⟨s, root, hs, hexec, hmem⟩ := Draft.exists_run {} (leastByMinusOne op) (by obtain rfl | rfl := hop <;> rfl) start
    (by obtain rfl | rfl := hop <;> decide +kernel)
  obtain ⟨hroot, hfuns⟩ : root = ⟨.print ⟨.binary op ⟨.int Int64.minValue, some .int⟩ ⟨.int (-1), some .int⟩, some .int⟩,
      some .int⟩ ∧ s.env.funs.firsts = [] := by
    have hanswer : ((leastByMinusOne op).build.exec {} .empty).1 = .ok root := congrArg Prod.fst hexec
    have henv : s.env = ((leastByMinusOne op).build.exec {} .empty).2 := (congrArg Prod.snd hexec).symm
    rw [henv]
    obtain rfl | rfl := hop <;> exact ⟨Except.ok.inj (hanswer.symm.trans rfl), rfl⟩
  subst hroot
  obtain ⟨p, hp⟩ := hs.exists_program hmem {}
  refine ⟨s, _, p, hs, hexec, hp, fun c m => ?_⟩
  obtain ⟨h, hcall, hroutine⟩ := Emit.call_guardInt hop (by decide : some Ty.int ≠ some .float) {} (some .int)
    (.long Int64.minValue) (.long (-1)) c
  -- the operands pass the routine, and their quotient is not a value of the type
  have hvalue : (C.Expr.call (.helper h) [.long Int64.minValue, .long (-1)]).compute c.withGuards m =
      .error .undefined := by
    rw [C.Expr.compute_call (C.Expr.computeAll_pair rfl rfl), hroutine,
      C.Helper.compute_guardInt_of_ne_zero _ (by decide), C.ValueTy.operate_long_of_not_represents hop (by decide)]
    rfl
  have hbody : p.main.body = [.expr (.call (.library .printf) [.text "%lld\n",
      .call (.helper h) [.long Int64.minValue, .long (-1)]]), .ret (.size 0)] := by
    unfold Emit.program at hp
    rw [hfuns] at hp
    rw [← hcall]
    obtain rfl | rfl := hop <;> cases hp <;> rfl
  rw [hbody]
  exact Stmt.performAll_expr_of_error (C.Expr.compute_call_pair_of_error rfl hvalue)

/-- **A program without a defined run.** The least number divided by minus one passes all checks of a builder and is emitted.
The routine does not stop it, and the run of the program is not defined. The same is true of the remainder. -/
theorem Run.division_undefined :
    (∃ s root p, Run {} start s ∧ (leastByMinusOne .div).build.exec {} .empty = (.ok root, s.env) ∧
      Emit.program {} s.env root = .ok p ∧
      ∀ (c : Setting) (m : Machine), Stmt.performAll c.withGuards p.main.body m = .error .undefined) ∧
    ∃ s root p, Run {} start s ∧ (leastByMinusOne .mod).build.exec {} .empty = (.ok root, s.env) ∧
      Emit.program {} s.env root = .ok p ∧
      ∀ (c : Setting) (m : Machine), Stmt.performAll c.withGuards p.main.body m = .error .undefined :=
  ⟨exists_run_leastByMinusOne (.inl rfl), exists_run_leastByMinusOne (.inr rfl)⟩

end Session

end ImpC
