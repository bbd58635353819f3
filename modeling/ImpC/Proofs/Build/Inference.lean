import ImpC.Proofs.Build.Client
import ImpC.Proofs.Build.Term

/-!
# Building an expression infers its type

A builder finds the types of an expression while it builds it, from the leaves up. `Term.build_outcome` says that this is
an inference for the typing rules of `ImpC.Proofs.Build.Term`, sound and complete: the building of a term succeeds exactly
if the term has a type, the tree it gives carries at every node the type that the rules give to the term there
(`Node.CarriesTy`), and without its types it is the term. If the term has no type, the answer is the first fault in the
order of building.

The proof is one composition. `Inferred env good order` is what the outcome of a computation may be that builds the terms
of `order`: a result that is `good` if they all have types, else their first fault, and the environment as it was.
Computations in sequence build their terms in sequence (`Inferred.bind`), so that what remains for each construct is the
last step, in which its own node is made of trees that carry their types.
-/

namespace ImpC

/-- The node carries the type of the term that remains of it without types. -/
def Node.CarriesTy (env : Env) (n : Node) : Prop :=
  ∃ t ty, n.term? = some t ∧ t.HasTy env ty ∧ n.ty = some ty

/-- The tree is the term `t`, with its type at every node. -/
structure Term.Elaborates (env : Env) (t : Term) (n : Node) : Prop where
  term?_eq : n.term? = some t
  carriesTy : n.Everywhere (Node.CarriesTy env)

/-- What a computation that builds the terms of `order` may come to. -/
inductive Inferred {α : Type} (env : Env) (good : α → Prop) (order : List Term) : Except BuildError α × Env → Prop where
  /-- The terms all have types. -/
  | ok {a : α} (typed : ∀ k ∈ order, ∃ ty, k.HasTy env ty) (h : good a) : Inferred env good order (.ok a, env)
  /-- One of the terms has none, and the answer is the fault of the first that has none. -/
  | error {e : BuildError} (h : Term.FirstFault env order e) : Inferred env good order (.error e, env)

variable {α β : Type} {options : BuildOptions} {env : Env}

namespace Inferred

/-- What is built in sequence is inferred in sequence. -/
protected theorem bind {good : α → Prop} {good' : β → Prop} {first rest : List Term} {m : BuildM α} {k : α → BuildM β}
    (hm : Inferred env good first (m.exec options env))
    (hk : ∀ a, good a → Inferred env good' rest ((k a).exec options env)) :
    Inferred env good' (first ++ rest) ((m >>= k).exec options env) := by
  rw [BuildM.exec_bind]
  generalize m.exec options env = outcome at hm ⊢
  cases hm with
  | error h => exact .error h.append_right
  | @ok a typed h =>
    have hrest := hk a h
    change Inferred env good' (first ++ rest) ((k a).exec options env)
    generalize (k a).exec options env = outcome at hrest ⊢
    cases hrest with
    | error h' => exact .error (h'.append_left typed)
    | ok typed' h' => exact .ok (List.forall_mem_append.2 ⟨typed, typed'⟩) h'

/-- What is done to the result afterwards builds nothing more. -/
theorem map {good : α → Prop} {good' : β → Prop} {order : List Term} {m : BuildM α} {f : α → β}
    (hm : Inferred env good order (m.exec options env)) (hf : ∀ a, good a → good' (f a)) :
    Inferred env good' order ((m >>= fun a => pure (f a)).exec options env) := by
  rw [← List.append_nil order]
  exact hm.bind fun a ha => .ok (fun _ hk => absurd hk List.not_mem_nil) (hf a ha)

/-- The last step of building a term that breaks a rule. -/
theorem of_fault {good : α → Prop} {t : Term} {e : BuildError} (h : t.Fault env e) :
    Inferred env good [t] (.error e, env) :=
  .error ⟨[], t, [], rfl, fun _ hk => absurd hk List.not_mem_nil, h⟩

end Inferred

/-! ### The last step of a construct -/

namespace Build

/-- An expression that passes its check is built with the type that the check gives. -/
theorem build_of_staticTy_eq_ok {c : Construct Node} {ty : Option Ty} (hc : c.isExpression = true)
    (h : staticTy options env c = .ok ty) : build options env c = (.ok ⟨c, ty⟩, env) := by
  unfold build
  rw [h]
  cases c <;> first | rfl | cases hc

theorem build_of_staticTy_eq_error {c : Construct Node} {e : BuildError} (h : staticTy options env c = .error e) :
    build options env c = (.error e, env) := by
  unfold build
  rw [h]

variable (options env)

theorem staticTy_var (x : String) :
    staticTy options env (.var x) =
      match env.variableTy? x with
      | some ty => .ok (some ty)
      | none => .error (.undeclaredIdentifier x) := by
  change (variableTy env x >>= fun ty => pure (some ty)) = _
  unfold variableTy
  cases env.variableTy? x with
  | none => rfl
  | some ty => rfl

theorem staticTy_binary (op : BinOp) {l r : Node} {left right : Ty} (hl : l.HasValue left) (hr : r.HasValue right) :
    staticTy options env (.binary op l r) =
      match op.resultTy? left right with
      | some ty => .ok (some ty)
      | none => .error (.incompatibleOperands op left right) := by
  simp only [staticTy, operandTy_eq_ok.2 hl, operandTy_eq_ok.2 hr]
  change (match op.resultTy? left right with
    | some ty => pure (some ty)
    | none => throw (BuildError.incompatibleOperands op left right)) = _
  cases op.resultTy? left right with
  | none => rfl
  | some ty => rfl

theorem staticTy_assign (x : String) {v : Node} {found : Ty} (hv : v.HasValue found) :
    staticTy options env (.assign x v) =
      match env.variableTy? x with
      | some expected =>
        if expected = found then .ok (some expected) else .error (.assignMismatch x expected found)
      | none => .error (.undeclaredIdentifier x) := by
  simp only [staticTy, operandTy_eq_ok.2 hv]
  unfold variableTy
  cases env.variableTy? x with
  | none => rfl
  | some expected => rfl

/-- Where calls are checked, a call has the type of its function if the arguments pass. -/
theorem staticTy_call (hcalls : options.validateCalls = true) (f : String) {ns : List Node} {tys : List Ty}
    (htys : argumentTys ns = .ok tys) :
    staticTy options env (.call f ns) =
      match env.function? f with
      | some g => (checkArguments g tys).map fun _ => some g.returnTy
      | none => .error (.undeclaredFunction f) := by
  simp only [staticTy, htys]
  unfold callTy
  cases env.function? f with
  | none =>
    rw [hcalls]
    rfl
  | some g =>
    rw [hcalls]
    change (checkArguments g tys >>= fun _ => pure g.returnTy) >>= (fun ty => pure (some ty)) =
      (checkArguments g tys).map fun _ => some g.returnTy
    cases checkArguments g tys with
    | error e => rfl
    | ok _ => rfl

/-- As many arguments as parameters pass if their types are those of the parameters, and otherwise the first position is
reported at which they differ. -/
theorem matchArguments_cases (f : String) (position : Nat) {params : List Variable} {tys : List Ty}
    (hlen : params.length = tys.length) :
    (matchArguments f position params tys = .ok () ∧ params.map Variable.ty = tys) ∨
      ∃ i p ty, params[i]? = some p ∧ tys[i]? = some ty ∧ p.ty ≠ ty ∧
        (∀ j < i, params[j]?.map Variable.ty = tys[j]?) ∧
        matchArguments f position params tys = .error (.argumentMismatch f (position + i) p.ty ty) := by
  induction params generalizing position tys with
  | nil =>
    obtain rfl := List.length_eq_zero_iff.1 hlen.symm
    exact .inl ⟨rfl, rfl⟩
  | cons param params ih =>
    cases tys with
    | nil => cases hlen
    | cons ty tys =>
      unfold matchArguments
      by_cases heq : param.ty = ty
      · rw [if_pos heq]
        rcases ih (position + 1) (Nat.succ.inj hlen) with ⟨hok, hmap⟩ | ⟨i, p, ty', hp, hty', hne, hbefore, herror⟩
        · exact .inl ⟨hok, by rw [List.map_cons, heq, hmap]⟩
        -- the position of a later mismatch is counted from the next one
        · refine .inr ⟨i + 1, p, ty', hp, hty', hne, fun j hj => ?_, ?_⟩
          · cases j with
            | zero => exact congrArg some heq
            | succ j => exact hbefore j (Nat.lt_of_succ_lt_succ hj)
          · rw [herror, Nat.add_assoc, Nat.add_comm 1 i]
      · rw [if_neg heq]
        exact .inr ⟨0, param, ty, rfl, rfl, heq, fun j hj => absurd hj (Nat.not_lt_zero j), rfl⟩

end Build

namespace Term

/-- A tree that carries its types has a value of the type of the term. -/
theorem Elaborates.exists_hasValue {t : Term} {n : Node} (h : t.Elaborates env n) :
    ∃ ty, t.HasTy env ty ∧ n.HasValue ty := by
  obtain ⟨t', ty, ht', hty, hn⟩ := h.carriesTy.top
  obtain rfl := Option.some.inj (h.term?_eq.symm.trans ht')
  exact ⟨ty, hty, Node.isExpression_of_term? ht', hn⟩

/-- A construct over trees that carry their types is built to a tree that does if its check gives the type of the
term. -/
theorem inferred_of_hasTy {t : Term} {ty : Ty} {c : Construct Node} (ht : t.HasTy env ty)
    (hterm : Node.term? ⟨c, some ty⟩ = some t) (hparts : ∀ m ∈ c.parts, m.Everywhere (Node.CarriesTy env))
    (hc : Build.staticTy options env c = .ok (some ty)) :
    Inferred env (t.Elaborates env) [t] (Build.build options env c) := by
  have hexpr : c.isExpression = true := Node.isExpression_of_term? hterm
  rw [Build.build_of_staticTy_eq_ok hexpr hc]
  refine .ok (List.forall_mem_singleton.2 ⟨ty, ht⟩) ⟨hterm, ?_⟩
  exact Node.everywhere_iff.2 ⟨⟨t, ty, hterm, ht, rfl⟩, hparts⟩

/-- A construct is refused if its check finds the fault of the term. -/
theorem inferred_of_fault {t : Term} {e : BuildError} {c : Construct Node} (h : t.Fault env e)
    (hc : Build.staticTy options env c = .error e) :
    Inferred env (t.Elaborates env) [t] (Build.build options env c) := by
  rw [Build.build_of_staticTy_eq_error hc]
  exact .of_fault h

theorem inferred_var (x : String) :
    Inferred env ((Term.var x).Elaborates env) [.var x] (Build.build options env (.var x)) := by
  have hcheck := Build.staticTy_var options env x
  cases hx : env.variableTy? x with
  | none =>
    rw [hx] at hcheck
    exact inferred_of_fault (.undeclared hx) hcheck
  | some ty =>
    rw [hx] at hcheck
    exact inferred_of_hasTy (.var hx) rfl (fun _ hm => absurd hm List.not_mem_nil) hcheck

theorem inferred_binary {token : String} {l r : Term} {l' r' : Node} (hl : l.Elaborates env l')
    (hr : r.Elaborates env r') :
    Inferred env ((Term.binary token l r).Elaborates env) [.binary token l r]
      ((Request.binary token l' r').answer options env) := by
  rw [Request.answer_binary]
  cases htoken : BinOp.ofSymbol? token with
  | none =>
    refine .of_fault (.unknownOperator fun op hop => ?_)
    rw [BinOp.ofSymbol?_eq_some_iff.2 hop] at htoken
    cases htoken
  | some op =>
    obtain rfl : token = op.symbol := BinOp.ofSymbol?_eq_some_iff.1 htoken
    obtain ⟨left, hleft, hleft'⟩ := hl.exists_hasValue
    obtain ⟨right, hright, hright'⟩ := hr.exists_hasValue
    have hcheck := Build.staticTy_binary options env op hleft' hright'
    cases hop : op.resultTy? left right with
    | none =>
      rw [hop] at hcheck
      refine inferred_of_fault (.incompatible rfl hleft hright fun ty hty => ?_) hcheck
      rw [BinOp.resultTy?_eq_some_iff.2 hty] at hop
      cases hop
    | some ty =>
      rw [hop] at hcheck
      have ht := HasTy.binary rfl hleft hright (BinOp.resultTy?_eq_some_iff.1 hop)
      refine inferred_of_hasTy ht ?_ ?_ hcheck
      · simp only [Node.term?, hl.term?_eq, hr.term?_eq]
        rfl
      · exact List.forall_mem_cons.2 ⟨hl.carriesTy, List.forall_mem_singleton.2 hr.carriesTy⟩

theorem inferred_assign {x : String} {v : Term} {v' : Node} (hv : v.Elaborates env v') :
    Inferred env ((Term.assign x v).Elaborates env) [.assign x v] (Build.build options env (.assign x v')) := by
  obtain ⟨found, hfound, hfound'⟩ := hv.exists_hasValue
  have hcheck := Build.staticTy_assign options env x hfound'
  cases hx : env.variableTy? x with
  | none =>
    rw [hx] at hcheck
    exact inferred_of_fault (.undeclaredTarget hx) hcheck
  | some expected =>
    rw [hx] at hcheck
    by_cases heq : expected = found
    · subst heq
      refine inferred_of_hasTy (.assign hx hfound) ?_ (List.forall_mem_singleton.2 hv.carriesTy) ?_
      · simp only [Node.term?, hv.term?_eq]
        rfl
      · exact hcheck.trans (if_pos rfl)
    · exact inferred_of_fault (.assignMismatch hx hfound heq) (hcheck.trans (if_neg heq))

/-- Trees that carry their types have them as the types of arguments. -/
theorem exists_argumentTys {ns : List Node} {args : List Term} (hargs : Node.terms? ns = some args)
    (hns : ∀ n ∈ ns, n.Everywhere (Node.CarriesTy env)) :
    ∃ tys, Build.argumentTys ns = .ok tys ∧ tys.length = args.length ∧
      ∀ (i : Nat) (a : Term) (ty : Ty), args[i]? = some a → tys[i]? = some ty → a.HasTy env ty := by
  induction ns generalizing args with
  | nil =>
    cases hargs
    exact ⟨[], rfl, rfl, fun i a ty ha => absurd ha (by simp)⟩
  | cons n ns ih =>
    obtain ⟨t, ht, hargs⟩ := Option.bind_eq_some_iff.1 hargs
    obtain ⟨ts, hts, hargs⟩ := Option.bind_eq_some_iff.1 hargs
    cases hargs
    obtain ⟨hn, hns⟩ := List.forall_mem_cons.1 hns
    obtain ⟨ty, hty, hvalue⟩ := Elaborates.exists_hasValue ⟨ht, hn⟩
    obtain ⟨tys, htys, hlen, htyped⟩ := ih hts hns
    refine ⟨ty :: tys, ?_, congrArg Nat.succ hlen, fun i a ty' ha hty' => ?_⟩
    · unfold Build.argumentTys
      rw [Build.operandTy_eq_ok.2 hvalue, htys]
      rfl
    · cases i with
      | zero =>
        cases ha
        cases hty'
        exact hty
      | succ i => exact htyped i a ty' ha hty'

theorem inferred_call (hcalls : options.validateCalls = true) {f : String} {args : List Term} {ns : List Node}
    (hargs : Node.terms? ns = some args) (hns : ∀ n ∈ ns, n.Everywhere (Node.CarriesTy env)) :
    Inferred env ((Term.call f args).Elaborates env) [.call f args] (Build.build options env (.call f ns)) := by
  obtain ⟨tys, htys, hlen, htyped⟩ := exists_argumentTys hargs hns
  have hcheck := Build.staticTy_call options env hcalls f htys
  cases hf : env.function? f with
  | none =>
    rw [hf] at hcheck
    exact inferred_of_fault (.undeclaredFunction hf) hcheck
  | some g =>
    rw [hf] at hcheck
    have hname : g.name = f := (Env.mem_of_function? hf).2
    change _ = (Build.checkArguments g tys).map (fun _ => some g.returnTy) at hcheck
    unfold Build.checkArguments at hcheck
    rw [hname, hlen] at hcheck
    by_cases hcount : g.params.length = args.length
    · rw [if_pos hcount] at hcheck
      rcases Build.matchArguments_cases f 1 (hcount.trans hlen.symm) with
        ⟨hok, hmap⟩ | ⟨i, p, ty, hp, hty, hne, hbefore, herror⟩
      · rw [hok] at hcheck
        refine inferred_of_hasTy (.call hf hcount fun i a p ha hp => ?_) ?_ hns hcheck
        · refine htyped i a p.ty ha ?_
          rw [← hmap, List.getElem?_map, hp]
          rfl
        · simp only [Node.term?, hargs]
          rfl
      · rw [herror, Nat.add_comm] at hcheck
        -- there is an argument at the position of the mismatch, since there is a type at it
        obtain ⟨hi, -⟩ := List.getElem?_eq_some_iff.1 hty
        have ha := List.getElem?_eq_getElem (hlen ▸ hi)
        refine inferred_of_fault (.argumentMismatch hf hcount ha hp (htyped i _ ty ha hty) hne ?_) hcheck
        intro j hj a q haj hq
        refine htyped j a q.ty haj ?_
        rw [← hbefore j hj, hq]
        rfl
    · rw [if_neg hcount] at hcheck
      exact inferred_of_fault (.argumentCount hf hcount) hcheck

/-! ### Whole terms -/

/-- Arguments are inferred one after the other. -/
theorem inferred_buildAll {ts : List Term}
    (hts : ∀ t ∈ ts, Inferred env (t.Elaborates env) t.postorder (t.draft.build.exec options env)) :
    Inferred env (fun ns => Node.terms? ns = some ts ∧ ∀ n ∈ ns, n.Everywhere (Node.CarriesTy env)) (postorders ts)
      ((Draft.buildAll (drafts ts)).exec options env) := by
  induction ts with
  | nil => exact .ok (fun _ hk => absurd hk List.not_mem_nil) ⟨rfl, fun _ hn => absurd hn List.not_mem_nil⟩
  | cons t ts ih =>
    obtain ⟨ht, hts⟩ := List.forall_mem_cons.1 hts
    refine ht.bind fun n hn => (ih hts).map fun ns hns => ⟨?_, List.forall_mem_cons.2 ⟨hn.carriesTy, hns.2⟩⟩
    simp only [Node.terms?, hn.term?_eq, hns.1]
    rfl

/-- A literal is inferred at once. -/
theorem inferred_literal (options : BuildOptions) {t : Term} {ty : Ty} (c : Construct Node) (ht : t.HasTy env ty)
    (hterm : Node.term? ⟨c, some ty⟩ = some t) (hparts : c.parts = [])
    (hc : Build.staticTy options env c = .ok (some ty)) :
    Inferred env (t.Elaborates env) [t] (Build.build options env c) := by
  refine inferred_of_hasTy ht hterm ?_ hc
  rw [hparts]
  exact fun _ hm => absurd hm List.not_mem_nil

/-- **Building is inference.** What the building of a term comes to, by induction over the term. -/
theorem inferred_build (hcalls : options.validateCalls = true) (env : Env) (t : Term) :
    Inferred env (t.Elaborates env) t.postorder (t.draft.build.exec options env) := by
  induction t using Term.induction with
  | int v => exact inferred_literal options (.int v) (.int v) rfl rfl rfl
  | float v => exact inferred_literal options (.float v) (.float v) rfl rfl rfl
  | text s => exact inferred_literal options (.text s) (.text s) rfl rfl rfl
  | var x => exact inferred_var x
  | binary token l r ihl ihr => exact ihl.bind fun l' hl => ihr.bind fun r' hr => inferred_binary hl hr
  | assign x v ih =>
    have hparts : Inferred env (fun c => ∃ v', v.Elaborates env v' ∧ c = .assign x v') v.postorder
        ((Draft.buildParts (.assign x v.draft)).exec options env) := ih.map fun v' hv => ⟨v', hv, rfl⟩
    refine hparts.bind fun c hc => ?_
    obtain ⟨v', hv, rfl⟩ := hc
    exact inferred_assign hv
  | call f args ih =>
    have hparts : Inferred env (fun c => ∃ ns, (Node.terms? ns = some args ∧
          ∀ n ∈ ns, n.Everywhere (Node.CarriesTy env)) ∧ c = .call f ns) (postorders args)
        ((Draft.buildParts (.call f (drafts args))).exec options env) :=
      (inferred_buildAll ih).map fun ns hns => ⟨ns, hns, rfl⟩
    refine hparts.bind fun c hc => ?_
    obtain ⟨ns, ⟨hargs, hns⟩, rfl⟩ := hc
    exact inferred_call hcalls hargs hns

/-- **Inference is sound and complete.** Where calls are checked, the building of a term changes nothing in the
environment, succeeds exactly if the term has a type, and gives the term back with the type of each part at its node.
It fails with an error exactly if that is the fault of the first part without a type. -/
theorem build_outcome (options : BuildOptions) (hcalls : options.validateCalls = true) (env : Env) (t : Term) :
    (t.draft.build.exec options env).2 = env ∧
      ((∃ n, (t.draft.build.exec options env).1 = .ok n) ↔ ∃ ty, t.HasTy env ty) ∧
      (∀ n, (t.draft.build.exec options env).1 = .ok n →
        n.term? = some t ∧ (∀ ty, t.HasTy env ty → n.ty = some ty) ∧ n.Everywhere (Node.CarriesTy env)) ∧
      ∀ e, (t.draft.build.exec options env).1 = .error e ↔ FirstFault env t.postorder e := by
  have hbuild := inferred_build hcalls env t
  generalize t.draft.build.exec options env = outcome at hbuild ⊢
  cases hbuild with
  | @ok n typed h =>
    obtain ⟨ty, hty, hvalue⟩ := h.exists_hasValue
    refine ⟨rfl, ⟨fun _ => ⟨ty, hty⟩, fun _ => ⟨n, rfl⟩⟩, fun m hm => ?_, fun e => ⟨fun he => ?_, fun he => ?_⟩⟩
    · cases hm
      refine ⟨h.term?_eq, fun ty' hty' => ?_, h.carriesTy⟩
      rw [hvalue.ty_eq, hty.unique hty']
    · cases he
    · exact absurd typed he.not_forall_hasTy
  | @error e h =>
    refine ⟨rfl, ⟨?_, ?_⟩, fun n hn => ?_, fun e' => ⟨fun he => ?_, fun he => ?_⟩⟩
    · rintro ⟨n, hn⟩
      cases hn
    · rintro ⟨ty, hty⟩
      exact absurd hty.of_mem_postorder h.not_forall_hasTy
    · cases hn
    · cases he
      exact h
    · rw [h.unique he]

/-- An integer `x`, and a function of two floats. -/
def scope : Env :=
  (Env.empty.declareVariable ⟨"x", .int⟩).2.registerFunction
    ⟨"f", [⟨"a", .float⟩, ⟨"b", .float⟩], .int, ⟨.block [], none⟩, ⟨.ret ⟨.int 0, some .int⟩, some .int⟩⟩

/-- The sum of `x` and `1.0`. -/
def mixedSum : Term := .binary "+" (.var "x") (.float ⟨0x3ff0000000000000⟩)

/-- The second argument of the call is an integer. What follows is worse: `y` is not declared, and `^` is not an
operator. -/
def faulty : Term := .binary "^" (.call "f" [mixedSum, .var "x"]) (.var "y")

/-- The sum is built and is a float. Of what is wrong around it the second argument of the call is reported, and neither
what comes after it nor the operator above it. -/
theorem build_outcome_faulty :
    (∃ n, (mixedSum.draft.build.exec {} scope).1 = .ok n ∧ n.ty = some .float) ∧
      (faulty.draft.build.exec {} scope).1 = .error (.argumentMismatch "f" 2 .float .int) ∧
      FirstFault scope faulty.postorder (.argumentMismatch "f" 2 .float .int) := by
  have herror : (faulty.draft.build.exec {} scope).1 = .error (.argumentMismatch "f" 2 .float .int) := by rfl
  have hsum : mixedSum.HasTy scope .float := by
    refine .binary (?_ : "+" = BinOp.add.symbol) (.var (?_ : _ = some .int)) (.float _) (.floats ?_ ?_ ?_ (.inr rfl))
    all_goals rfl
  obtain ⟨-, htyped, htree, -⟩ := build_outcome {} rfl scope mixedSum
  obtain ⟨-, -, -, hfault⟩ := build_outcome {} rfl scope faulty
  obtain ⟨n, hn⟩ := htyped.2 ⟨_, hsum⟩
  exact ⟨⟨n, hn, (htree n hn).2.1 _ hsum⟩, herror, (hfault _).1 herror⟩

end Term

end ImpC
