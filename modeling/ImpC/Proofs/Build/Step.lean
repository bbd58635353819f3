import ImpC.Build.Basic
import ImpC.Proofs.Env

/-!
# One step of building

What building one construct can do, said once. `Builds options env c n env'` gives the three ways in which it can
succeed: a declaration enters the variables, a definition declares its parameters and enters the functions, and every
other construct gets its static type and leaves the environment alone. `builds_of_build` is the inversion of
`Build.build` that goes with it, and whatever a step does, also one that fails, it only adds to the environment
(`extends_build`).

The checks of the parts are turned into what they mean: `Node.HasValue` for a part that is an expression of some type,
and an equation between lists of types for the arguments of a call.
-/

namespace ImpC

/-- A sequence of checks passes with a result if the first passes and the second passes on what the first gave. -/
theorem bind_eq_ok_iff {ε α β : Type} {x : Except ε α} {f : α → Except ε β} {b : β} :
    (x >>= f) = .ok b ↔ ∃ a, x = .ok a ∧ f a = .ok b := by
  cases x with
  | error e =>
    constructor
    · intro h
      cases h
    · rintro ⟨a, h, -⟩
      cases h
  | ok a =>
    constructor
    · intro h
      exact ⟨a, rfl, h⟩
    · rintro ⟨a', h, hb⟩
      cases h
      exact hb

/-- The tree is an expression, and its static type is `ty`. -/
structure Node.HasValue (n : Node) (ty : Ty) : Prop where
  isExpression : n.isExpression = true
  ty_eq : n.ty = some ty

/-- The constructs that change the environment. -/
def Construct.isDeclaration {α : Type} : Construct α → Bool
  | declare _ | function .. => true
  | int _ | float _ | text _ | var _ | binary .. | assign .. | call .. | print _ | read _ | branch .. | loop ..
  | count .. | block _ | ret _ => false

namespace Build

variable {options : BuildOptions} {env env' : Env} {c : Construct Node} {n : Node}

/-! ### What the checks mean -/

theorem operandTy_eq_ok {place : String} {ty : Ty} : operandTy place n = .ok ty ↔ n.HasValue ty := by
  unfold operandTy
  constructor
  · intro h
    split at h
    · next t ht =>
      split at h
      · next hn =>
        cases h
        exact ⟨hn, ht⟩
      · cases h
    · cases h
  · intro h
    rw [h.ty_eq]
    exact if_pos h.isExpression

theorem variableTy_eq_ok {x : String} {ty : Ty} : variableTy env x = .ok ty ↔ env.variableTy? x = some ty := by
  unfold variableTy
  cases env.variableTy? x with
  | none => simp
  | some t => simp

/-- Arguments have types if each of them has a value. -/
theorem argumentTys_eq_ok {args : List Node} {tys : List Ty} (h : argumentTys args = .ok tys) :
    (∀ a ∈ args, ∃ ty, a.HasValue ty) ∧ args.map Node.ty = tys.map some := by
  induction args generalizing tys with
  | nil =>
    cases h
    exact ⟨fun _ ha => absurd ha List.not_mem_nil, rfl⟩
  | cons a args ih =>
    obtain ⟨ty, hty, h⟩ := bind_eq_ok_iff.1 h
    obtain ⟨rest, hrest, h⟩ := bind_eq_ok_iff.1 h
    cases h
    obtain ⟨hvalues, htys⟩ := ih hrest
    have ha := operandTy_eq_ok.1 hty
    refine ⟨List.forall_mem_cons.2 ⟨⟨ty, ha⟩, hvalues⟩, ?_⟩
    rw [List.map_cons, List.map_cons, ha.ty_eq, htys]

/-- Arguments pass one by one if their types are those of as many parameters. -/
theorem matchArguments_eq_ok {f : String} {position : Nat} {params : List Variable} {tys : List Ty}
    (hlen : params.length = tys.length) (h : matchArguments f position params tys = .ok ()) :
    params.map Variable.ty = tys := by
  induction params generalizing position tys with
  -- the check stops where either list ends, so that both end together has to be known
  | nil => exact (List.length_eq_zero_iff.1 hlen.symm).symm
  | cons param params ih =>
    cases tys with
    | nil => cases hlen
    | cons ty tys =>
      unfold matchArguments at h
      split at h
      · next heq => rw [List.map_cons, heq, ih (Nat.succ.inj hlen) h]
      · cases h

theorem checkArguments_eq_ok {g : Function} {tys : List Ty} (h : checkArguments g tys = .ok ()) :
    g.params.map Variable.ty = tys := by
  unfold checkArguments at h
  split at h
  · next hlen => exact matchArguments_eq_ok hlen h
  · cases h

/-- A call that is checked has the type its function returns, and arguments of the types of the parameters. -/
theorem callTy_eq_ok (hv : options.validateCalls = true) {f : String} {tys : List Ty} {ty : Ty}
    (h : callTy options env f tys = .ok ty) :
    ∃ g, env.function? f = some g ∧ g.params.map Variable.ty = tys ∧ g.returnTy = ty := by
  unfold callTy at h
  split at h
  · next g hg =>
    rw [if_pos hv] at h
    obtain ⟨_, hargs, h⟩ := bind_eq_ok_iff.1 h
    cases h
    exact ⟨g, hg, checkArguments_eq_ok hargs, rfl⟩
  · rw [if_pos hv] at h
    cases h

/-! ### Parameters and results of a function -/

theorem extends_declareParams (f : String) (ps : List Node) (env : Env) :
    env.Extends (declareParams f env ps).2 := by
  fun_induction declareParams f env ps with
  | case1 env => exact .refl env
  | case2 env v _ rest params env' heq ih =>
    rw [heq] at ih
    exact (env.extends_declareVariable v).trans ih
  | case3 env => exact .refl env

/-- Declaring parameters registers no function. -/
theorem funs_of_declareParams {f : String} {ps : List Node} {vars : Except BuildError (List Variable)}
    (h : declareParams f env ps = (vars, env')) : env'.funs = env.funs := by
  fun_induction declareParams f env ps generalizing vars with
  | case1 env =>
    cases h
    rfl
  | case2 env v _ rest params env'' heq ih =>
    obtain ⟨-, rfl⟩ := Prod.mk.inj h
    exact (ih heq).trans (env.funs_declareVariable v)
  | case3 env =>
    cases h
    rfl

/-- Parameters that pass are declarations, and the function has their variables. -/
theorem declareParams_eq_ok {f : String} {ps : List Node} {vars : List Variable}
    (h : declareParams f env ps = (.ok vars, env')) : ps.map Node.construct = vars.map Construct.declare := by
  fun_induction declareParams f env ps generalizing vars with
  | case1 env =>
    cases h
    rfl
  | case2 env v _ rest params env'' heq ih =>
    obtain ⟨hparams, rfl⟩ := Prod.mk.inj h
    cases params with
    | error e => cases hparams
    | ok params =>
      cases hparams
      rw [List.map_cons, List.map_cons, ih heq]
      rfl
  | case3 env => cases h

/-- The statement that ends a function is the one given, if it returns, or returns the expression given. -/
theorem resultStatement_eq_ok {r r' : Node} (h : resultStatement r = .ok r') :
    (r.construct.isReturn = true ∧ r' = r) ∨ ∃ ty, r.HasValue ty ∧ r' = ⟨.ret r, some ty⟩ := by
  unfold resultStatement at h
  split at h
  · next hr =>
    cases h
    exact .inl ⟨hr, rfl⟩
  · obtain ⟨ty, hty, h⟩ := bind_eq_ok_iff.1 h
    cases h
    exact .inr ⟨ty, operandTy_eq_ok.1 hty, rfl⟩

/-! ### The step -/

/-- The ways in which building a construct succeeds. -/
inductive Builds (options : BuildOptions) (env : Env) : Construct Node → Node → Env → Prop where
  /-- A declaration enters the variables. -/
  | declare {v : Variable} (passes : staticTy options env (.declare v) = .ok none) :
      Builds options env (.declare v) ⟨.declare v, none⟩ (env.declareVariable v).2
  /-- A definition declares its parameters and enters the functions. -/
  | define {f : String} {ps : List Node} {b r r' : Node} {vars : List Variable} {env' : Env}
      (passes : staticTy options env (.function f ps b r) = .ok none)
      (params : declareParams f env ps = (.ok vars, env')) (result : resultStatement r = .ok r') :
      Builds options env (.function f ps b r) ⟨.function f ps b r', none⟩
        (env'.registerFunction ⟨f, vars, r'.ty.getD .int, b, r'⟩)
  /-- Any other construct gets its static type. -/
  | typed {c : Construct Node} {ty : Option Ty} (plain : c.isDeclaration = false)
      (passes : staticTy options env c = .ok ty) : Builds options env c ⟨c, ty⟩ env

/-- A declaration and a definition have no type of their own. -/
theorem staticTy_of_isDeclaration {ty : Option Ty} (hc : c.isDeclaration = true)
    (h : staticTy options env c = .ok ty) : ty = none := by
  cases c
  case declare v =>
    simp only [staticTy] at h
    split at h
    · cases h
    · cases h
      rfl
  case function f ps b r =>
    simp only [staticTy] at h
    split at h
    · cases h
    · cases h
      rfl
  all_goals cases hc

theorem builds_of_define {f : String} {ps : List Node} {b r : Node}
    (passes : staticTy options env (.function f ps b r) = .ok none)
    (h : define env f ps b r = (.ok n, env')) : Builds options env (.function f ps b r) n env' := by
  unfold define at h
  split at h
  · cases h
  · next vars env₁ hparams =>
    split at h
    · cases h
    · next r' hresult =>
      cases h
      exact .define passes hparams hresult

/-- **Inversion of a step.** Building a construct succeeds in one of the three ways only. -/
theorem builds_of_build (h : build options env c = (.ok n, env')) : Builds options env c n env' := by
  unfold build at h
  split at h
  · cases h
  · next ty hty =>
    split at h
    · obtain rfl := staticTy_of_isDeclaration rfl hty
      cases h
      exact .declare hty
    · obtain rfl := staticTy_of_isDeclaration rfl hty
      exact builds_of_define hty h
    -- none of the patterns in front of this one has matched
    · next hdeclare hfunction =>
      cases h
      refine .typed ?_ hty
      cases c <;> first | rfl | exact absurd rfl (hdeclare _) | exact absurd rfl (hfunction _ _ _ _)

theorem extends_define (env : Env) (f : String) (ps : List Node) (b r : Node) :
    env.Extends (define env f ps b r).2 := by
  have hparams := extends_declareParams f ps env
  unfold define
  split
  · next e env' heq =>
    rw [heq] at hparams
    exact hparams
  · next vars env' heq =>
    rw [heq] at hparams
    split
    -- the last statement has no value, and the parameters stay declared
    · exact hparams
    · exact hparams.trans (env'.extends_registerFunction _)

/-- **A step only adds.** Whether it succeeds or fails, it takes nothing back. -/
theorem extends_build (options : BuildOptions) (env : Env) (c : Construct Node) :
    env.Extends (build options env c).2 := by
  unfold build
  split
  · exact .refl env
  · split
    · exact env.extends_declareVariable _
    -- a definition may fail when its parameters are declared already
    · exact extends_define env _ _ _ _
    · exact .refl env

theorem funs_of_define_eq_error {f : String} {ps : List Node} {b r : Node} {e : BuildError}
    (h : define env f ps b r = (.error e, env')) : env'.funs = env.funs := by
  unfold define at h
  split at h
  · next hparams =>
    cases h
    exact funs_of_declareParams hparams
  · next hparams =>
    split at h
    · cases h
      exact funs_of_declareParams hparams
    · cases h

/-- A step that fails registers no function. -/
theorem funs_of_build_eq_error {e : BuildError} (h : build options env c = (.error e, env')) :
    env'.funs = env.funs := by
  unfold build at h
  split at h
  · cases h
    rfl
  · split at h
    · cases h
    · exact funs_of_define_eq_error h
    · cases h

end Build

end ImpC
