import ImpC.Build.Draft
import ImpC.Proofs.Env
import ImpC.Proofs.Tree.Parts

/-!
# Terms and their types

A `Term` is an expression that has not been checked: a tree without types, in which an operator is any token. It becomes a
draft to be built (`Term.draft`), and it is what remains of a tree when the types are erased (`Node.term?`).

Which terms have a type is said here by rules that do not mention the building of trees:

* `BinOp.Applies op left right ty` — the operator is defined on operands of these types and gives a result of type `ty`;
* `Term.HasTy env t ty` — the term has the type `ty` in the environment, derived from the types of its parts;
* `Term.Fault env t e` — the parts of the term may be all right, but the term itself breaks a rule, and `e` says which;
* `Term.FirstFault env ts e` — the first of the terms `ts` that has no type has the fault `e`.

A term has at most one type (`Term.HasTy.unique`) and at most one fault (`Term.Fault.unique`), and not both
(`Term.Fault.not_hasTy`). In the order in which a tree is built (`Term.postorder`), parts before the whole and from left
to right, there is then at most one first fault (`Term.FirstFault.unique`), and none in a term that has a type.
-/

namespace ImpC

/-! ### Terms -/

/-- An expression that has not been checked. -/
inductive Term where
  | int (value : Int64)
  | float (value : Binary64)
  | text (value : String)
  | var (name : String)
  | binary (token : String) (left right : Term)
  | assign (target : String) (value : Term)
  | call (name : String) (args : List Term)

namespace Term

/-- Induction over terms, in which a call has the property as soon as all its arguments have it. -/
theorem induction {P : Term → Prop} (int : ∀ v, P (.int v)) (float : ∀ v, P (.float v)) (text : ∀ v, P (.text v))
    (var : ∀ x, P (.var x)) (binary : ∀ token l r, P l → P r → P (.binary token l r))
    (assign : ∀ x v, P v → P (.assign x v)) (call : ∀ f args, (∀ a ∈ args, P a) → P (.call f args)) (t : Term) :
    P t := by
  refine @Term.rec P (fun ts => ∀ t ∈ ts, P t) int float text var binary assign call ?_ ?_ t
  · intro t ht
    exact absurd ht List.not_mem_nil
  · intro t ts ht hts
    exact List.forall_mem_cons.2 ⟨ht, hts⟩

mutual

/-- The term as a draft, to be built with the constructors of a builder. -/
def draft : Term → Draft
  | int v => .construct (.int v)
  | float v => .construct (.float v)
  | text s => .construct (.text s)
  | var x => .construct (.var x)
  | binary token l r => .binary token l.draft r.draft
  | assign x v => .construct (.assign x v.draft)
  | call f args => .construct (.call f (drafts args))

/-- The terms as drafts. -/
def drafts : List Term → List Draft
  | [] => []
  | t :: ts => t.draft :: drafts ts

end

mutual

/-- The terms inside a term in the order in which they are built: the parts from left to right, then the whole. -/
def postorder : Term → List Term
  | binary token l r => l.postorder ++ (r.postorder ++ [binary token l r])
  | assign x v => v.postorder ++ [assign x v]
  | call f args => postorders args ++ [call f args]
  | t => [t]

/-- The terms inside several terms, one after the other. -/
def postorders : List Term → List Term
  | [] => []
  | t :: ts => t.postorder ++ postorders ts

end

theorem mem_postorders {k : Term} {ts : List Term} (h : k ∈ postorders ts) : ∃ t ∈ ts, k ∈ t.postorder := by
  induction ts with
  | nil => exact absurd h List.not_mem_nil
  | cons t ts ih =>
    rcases List.mem_append.1 h with hk | hk
    · exact ⟨t, List.mem_cons_self, hk⟩
    · obtain ⟨u, hu, hk⟩ := ih hk
      exact ⟨u, List.mem_cons_of_mem t hu, hk⟩

end Term

/-! ### Erasing the types of a tree -/

namespace Node

mutual

/-- The term that remains of an expression without its types, and `none` for a tree with a statement in it. -/
@[simp] def term? : Node → Option Term
  | ⟨.int v, _⟩ => some (.int v)
  | ⟨.float v, _⟩ => some (.float v)
  | ⟨.text s, _⟩ => some (.text s)
  | ⟨.var x, _⟩ => some (.var x)
  | ⟨.binary op l r, _⟩ => do
    let l ← l.term?
    let r ← r.term?
    return .binary op.symbol l r
  | ⟨.assign x v, _⟩ => do
    let v ← v.term?
    return .assign x v
  | ⟨.call f args, _⟩ => do
    let args ← terms? args
    return .call f args
  | ⟨_, _⟩ => none

/-- The terms that remain of expressions. -/
@[simp] def terms? : List Node → Option (List Term)
  | [] => some []
  | n :: ns => do
    let t ← n.term?
    let ts ← terms? ns
    return t :: ts

end

theorem isExpression_of_term? {n : Node} {t : Term} (h : n.term? = some t) : n.isExpression = true := by
  obtain ⟨c, ty⟩ := n
  cases c <;> first | rfl | cases h

end Node

/-! ### What an operator is defined on -/

namespace BinOp

/-- The operator is defined on operands of the types `left` and `right`, and its result is of type `ty`. -/
inductive Applies (op : BinOp) : Ty → Ty → Ty → Prop where
  /-- A comparison takes operands of one type, whichever it is, and gives a flag. -/
  | comparison (hop : op.isComparison = true) (ty : Ty) : Applies op ty ty .int
  /-- Two texts can be put together. -/
  | concat (hop : op = .add) : Applies op .text .text .text
  /-- Arithmetic on integers gives an integer. -/
  | integers (hop : op.isComparison = false) : Applies op .int .int .int
  /-- Arithmetic on numbers gives a float if one of them is a float. -/
  | floats {left right : Ty} (hop : op.isComparison = false) (hleft : left.isNumeric = true)
      (hright : right.isNumeric = true) (h : left = .float ∨ right = .float) : Applies op left right .float

variable {op : BinOp} {left right ty : Ty}

/-- The table of results follows the rules. -/
theorem resultTy?_eq_some_iff : op.resultTy? left right = some ty ↔ op.Applies left right ty := by
  constructor
  · intro h
    unfold resultTy? at h
    split at h
    · next hop =>
      split at h
      · next heq =>
        cases h
        subst heq
        exact .comparison hop left
      · cases h
    · next hop =>
      have hop : op.isComparison = false := Bool.eq_false_iff.2 hop
      unfold arithmeticTy? at h
      split at h
      · split at h
        · next hadd =>
          cases h
          exact .concat hadd
        · cases h
      · cases h
      · cases h
      · next hright =>
        cases h
        refine .floats hop rfl ?_ (.inl rfl)
        cases right <;> first | rfl | exact absurd rfl hright
      · next hleft _ =>
        cases h
        refine .floats hop ?_ rfl (.inr rfl)
        cases left <;> first | rfl | exact absurd rfl hleft
      · cases h
        exact .integers hop
  · intro h
    cases h with
    | comparison hop => simp [resultTy?, hop]
    | concat hop => simp [resultTy?, hop, isComparison, arithmeticTy?]
    | integers hop => simp [resultTy?, hop, arithmeticTy?]
    | floats hop hleft hright h =>
      cases left <;> cases right <;> simp_all [resultTy?, arithmeticTy?, Ty.isNumeric]

theorem Applies.unique {ty' : Ty} (h : op.Applies left right ty) (h' : op.Applies left right ty') : ty = ty' := by
  rw [← resultTy?_eq_some_iff] at h h'
  exact Option.some.inj (h.symm.trans h')

theorem symbol_injective {op op' : BinOp} (h : op.symbol = op'.symbol) : op = op' := by
  have hop := ofSymbol?_symbol op
  rw [h, ofSymbol?_symbol] at hop
  exact (Option.some.inj hop).symm

end BinOp

/-! ### The typing rules -/

namespace Term

/-- The term has the type in the environment. -/
inductive HasTy (env : Env) : Term → Ty → Prop where
  | int (v : Int64) : HasTy env (.int v) .int
  | float (v : Binary64) : HasTy env (.float v) .float
  | text (s : String) : HasTy env (.text s) .text
  /-- A variable has the type it is declared with. -/
  | var {x : String} {ty : Ty} (hx : env.variableTy? x = some ty) : HasTy env (.var x) ty
  /-- The token is that of an operator which is defined on the types of the operands. -/
  | binary {token : String} {op : BinOp} {l r : Term} {left right ty : Ty} (htoken : token = op.symbol)
      (hl : HasTy env l left) (hr : HasTy env r right) (hop : op.Applies left right ty) :
      HasTy env (.binary token l r) ty
  /-- The value assigned has the type of the variable. -/
  | assign {x : String} {v : Term} {ty : Ty} (hx : env.variableTy? x = some ty) (hv : HasTy env v ty) :
      HasTy env (.assign x v) ty
  /-- There is one argument for each parameter of the function, and it has the type of the parameter. -/
  | call {f : String} {args : List Term} {g : Function} (hf : env.function? f = some g)
      (hlen : g.params.length = args.length)
      (hargs : ∀ (i : Nat) (a : Term) (p : Variable), args[i]? = some a → g.params[i]? = some p → HasTy env a p.ty) :
      HasTy env (.call f args) g.returnTy

/-- The rule that a term breaks, given that its parts break none. -/
inductive Fault (env : Env) : Term → BuildError → Prop where
  | undeclared {x : String} (hx : env.variableTy? x = none) : Fault env (.var x) (.undeclaredIdentifier x)
  /-- An unknown token is the fault whatever the operands are. -/
  | unknownOperator {token : String} {l r : Term} (htoken : ∀ op : BinOp, token ≠ op.symbol) :
      Fault env (.binary token l r) (.unknownOperator token)
  | incompatible {token : String} {op : BinOp} {l r : Term} {left right : Ty} (htoken : token = op.symbol)
      (hl : l.HasTy env left) (hr : r.HasTy env right) (hop : ∀ ty, ¬ op.Applies left right ty) :
      Fault env (.binary token l r) (.incompatibleOperands op left right)
  | undeclaredTarget {x : String} {v : Term} (hx : env.variableTy? x = none) :
      Fault env (.assign x v) (.undeclaredIdentifier x)
  | assignMismatch {x : String} {v : Term} {expected found : Ty} (hx : env.variableTy? x = some expected)
      (hv : v.HasTy env found) (hne : expected ≠ found) : Fault env (.assign x v) (.assignMismatch x expected found)
  | undeclaredFunction {f : String} {args : List Term} (hf : env.function? f = none) :
      Fault env (.call f args) (.undeclaredFunction f)
  | argumentCount {f : String} {args : List Term} {g : Function} (hf : env.function? f = some g)
      (hlen : g.params.length ≠ args.length) :
      Fault env (.call f args) (.argumentCount f g.params.length args.length)
  /-- The argument at the index `i` is the first whose type is not that of its parameter. -/
  | argumentMismatch {f : String} {args : List Term} {g : Function} {i : Nat} {a : Term} {p : Variable} {found : Ty}
      (hf : env.function? f = some g) (hlen : g.params.length = args.length) (ha : args[i]? = some a)
      (hp : g.params[i]? = some p) (hfound : a.HasTy env found) (hne : p.ty ≠ found)
      (hbefore : ∀ j < i, ∀ (a : Term) (p : Variable), args[j]? = some a → g.params[j]? = some p → a.HasTy env p.ty) :
      Fault env (.call f args) (.argumentMismatch f (i + 1) p.ty found)

/-- The first of the terms that has no type has the fault `e`. -/
def FirstFault (env : Env) (ts : List Term) (e : BuildError) : Prop :=
  ∃ before t later, ts = before ++ t :: later ∧ (∀ k ∈ before, ∃ ty, k.HasTy env ty) ∧ t.Fault env e

variable {env : Env} {t : Term} {ty : Ty} {e e' : BuildError}

/-! ### Types and faults are unique -/

/-- A term has at most one type. -/
theorem HasTy.unique {ty' : Ty} (h : t.HasTy env ty) (h' : t.HasTy env ty') : ty = ty' := by
  induction h generalizing ty' with
  | int v | float v | text s =>
    cases h'
    rfl
  | var hx =>
    cases h' with
    | var hx' => exact Option.some.inj (hx.symm.trans hx')
  | binary htoken _ _ hop ihl ihr =>
    cases h' with
    | binary htoken' hl' hr' hop' =>
      obtain rfl := BinOp.symbol_injective (htoken.symm.trans htoken')
      obtain rfl := ihl hl'
      obtain rfl := ihr hr'
      exact hop.unique hop'
  | assign hx _ _ =>
    cases h' with
    | assign hx' _ => exact Option.some.inj (hx.symm.trans hx')
  | call hf _ _ _ =>
    cases h' with
    | call hf' _ _ =>
      obtain rfl := Option.some.inj (hf.symm.trans hf')
      rfl

/-- Every term inside a term that has a type has one. -/
theorem HasTy.of_mem_postorder (h : t.HasTy env ty) : ∀ k ∈ t.postorder, ∃ ty, k.HasTy env ty := by
  induction h with
  | int v => exact List.forall_mem_singleton.2 ⟨_, .int v⟩
  | float v => exact List.forall_mem_singleton.2 ⟨_, .float v⟩
  | text s => exact List.forall_mem_singleton.2 ⟨_, .text s⟩
  | var hx => exact List.forall_mem_singleton.2 ⟨_, .var hx⟩
  | binary htoken hl hr hop ihl ihr =>
    refine List.forall_mem_append.2 ⟨ihl, List.forall_mem_append.2 ⟨ihr, ?_⟩⟩
    exact List.forall_mem_singleton.2 ⟨_, .binary htoken hl hr hop⟩
  | assign hx hv ih =>
    refine List.forall_mem_append.2 ⟨ih, ?_⟩
    exact List.forall_mem_singleton.2 ⟨_, .assign hx hv⟩
  | @call f args g hf hlen hargs ih =>
    refine List.forall_mem_append.2 ⟨?_, List.forall_mem_singleton.2 ⟨_, .call hf hlen hargs⟩⟩
    intro k hk
    obtain ⟨a, ha, hk⟩ := mem_postorders hk
    obtain ⟨i, hi, ha⟩ := List.mem_iff_getElem.1 ha
    -- there are as many parameters as arguments, so there is one for this argument
    have hp : i < g.params.length := hlen ▸ hi
    exact ih i a g.params[i] (ha ▸ List.getElem?_eq_getElem hi) (List.getElem?_eq_getElem hp) k hk

/-- What breaks a rule has no type. -/
theorem Fault.not_hasTy (h : t.Fault env e) : ¬ t.HasTy env ty := by
  intro ht
  cases h with
  | undeclared hx =>
    cases ht with
    | var hx' => exact Option.some_ne_none _ (hx'.symm.trans hx)
  | unknownOperator htoken =>
    cases ht with
    | binary htoken' _ _ _ => exact htoken _ htoken'
  | incompatible htoken hl hr hop =>
    cases ht with
    | binary htoken' hl' hr' hop' =>
      obtain rfl := BinOp.symbol_injective (htoken.symm.trans htoken')
      obtain rfl := hl.unique hl'
      obtain rfl := hr.unique hr'
      exact hop _ hop'
  | undeclaredTarget hx =>
    cases ht with
    | assign hx' _ => exact Option.some_ne_none _ (hx'.symm.trans hx)
  | assignMismatch hx hv hne =>
    cases ht with
    | assign hx' hv' =>
      obtain rfl := Option.some.inj (hx.symm.trans hx')
      exact hne (hv'.unique hv)
  | undeclaredFunction hf =>
    cases ht with
    | call hf' _ _ => exact Option.some_ne_none _ (hf'.symm.trans hf)
  | argumentCount hf hlen =>
    cases ht with
    | call hf' hlen' _ =>
      obtain rfl := Option.some.inj (hf.symm.trans hf')
      exact hlen hlen'
  | argumentMismatch hf _ ha hp hfound hne _ =>
    cases ht with
    | call hf' _ hargs =>
      obtain rfl := Option.some.inj (hf.symm.trans hf')
      exact hne ((hargs _ _ _ ha hp).unique hfound)

/-- A term has at most one fault. -/
theorem Fault.unique (h : t.Fault env e) (h' : t.Fault env e') : e = e' := by
  cases h with
  | undeclared hx =>
    cases h'
    rfl
  | unknownOperator htoken =>
    cases h' with
    | unknownOperator _ => rfl
    | incompatible htoken' _ _ _ => exact absurd htoken' (htoken _)
  | incompatible htoken hl hr hop =>
    cases h' with
    | unknownOperator htoken' => exact absurd htoken (htoken' _)
    | incompatible htoken' hl' hr' _ =>
      obtain rfl := BinOp.symbol_injective (htoken.symm.trans htoken')
      obtain rfl := hl.unique hl'
      obtain rfl := hr.unique hr'
      rfl
  | undeclaredTarget hx =>
    cases h' with
    | undeclaredTarget _ => rfl
    | assignMismatch hx' _ _ => exact absurd (hx'.symm.trans hx) (Option.some_ne_none _)
  | assignMismatch hx hv hne =>
    cases h' with
    | undeclaredTarget hx' => exact absurd (hx.symm.trans hx') (Option.some_ne_none _)
    | assignMismatch hx' hv' _ =>
      obtain rfl := Option.some.inj (hx.symm.trans hx')
      obtain rfl := hv.unique hv'
      rfl
  | undeclaredFunction hf =>
    cases h' with
    | undeclaredFunction _ => rfl
    | argumentCount hf' _ => exact absurd (hf'.symm.trans hf) (Option.some_ne_none _)
    | argumentMismatch hf' _ _ _ _ _ _ => exact absurd (hf'.symm.trans hf) (Option.some_ne_none _)
  | argumentCount hf hlen =>
    cases h' with
    | undeclaredFunction hf' => exact absurd (hf.symm.trans hf') (Option.some_ne_none _)
    | argumentCount hf' _ =>
      obtain rfl := Option.some.inj (hf.symm.trans hf')
      rfl
    | argumentMismatch hf' hlen' _ _ _ _ _ =>
      obtain rfl := Option.some.inj (hf.symm.trans hf')
      exact absurd hlen' hlen
  | @argumentMismatch f args g i a p found hf hlen ha hp hfound hne hbefore =>
    cases h' with
    | undeclaredFunction hf' => exact absurd (hf.symm.trans hf') (Option.some_ne_none _)
    | argumentCount hf' hlen' =>
      obtain rfl := Option.some.inj (hf.symm.trans hf')
      exact absurd hlen hlen'
    | @argumentMismatch _ _ _ j b q found' hf' _ hb hq hfound' hne' hbefore' =>
      obtain rfl := Option.some.inj (hf.symm.trans hf')
      -- of two first mismatches neither comes before the other
      have hji : ¬ j < i := fun hlt => hne' ((hbefore j hlt b q hb hq).unique hfound')
      have hij : ¬ i < j := fun hlt => hne ((hbefore' i hlt a p ha hp).unique hfound)
      obtain rfl : i = j := Nat.le_antisymm (Nat.le_of_not_lt hji) (Nat.le_of_not_lt hij)
      obtain rfl := Option.some.inj (ha.symm.trans hb)
      obtain rfl := Option.some.inj (hp.symm.trans hq)
      obtain rfl := hfound.unique hfound'
      rfl

namespace FirstFault

variable {ts us : List Term}

theorem append_right (h : FirstFault env ts e) : FirstFault env (ts ++ us) e := by
  obtain ⟨before, t, later, rfl, hbefore, ht⟩ := h
  exact ⟨before, t, later ++ us, by simp, hbefore, ht⟩

theorem append_left (hts : ∀ k ∈ ts, ∃ ty, k.HasTy env ty) (h : FirstFault env us e) :
    FirstFault env (ts ++ us) e := by
  obtain ⟨before, t, later, rfl, hbefore, ht⟩ := h
  exact ⟨ts ++ before, t, later, by simp, List.forall_mem_append.2 ⟨hts, hbefore⟩, ht⟩

/-- Among terms that all have types there is no first fault. -/
theorem not_forall_hasTy (h : FirstFault env ts e) : ¬ ∀ k ∈ ts, ∃ ty, k.HasTy env ty := by
  intro hts
  obtain ⟨before, t, later, rfl, -, ht⟩ := h
  obtain ⟨ty, hty⟩ := hts t (List.mem_append_right _ List.mem_cons_self)
  exact ht.not_hasTy hty

/-- A list that goes on from the same place in two ways, with a faulty term first and with one behind terms that have
types, goes on with the same term. -/
theorem eq_of_cons_eq {t t' : Term} {mid later later' : List Term} (hmid : ∀ k ∈ mid, ∃ ty, k.HasTy env ty)
    (heq : t :: later = mid ++ t' :: later') (ht : t.Fault env e) (ht' : t'.Fault env e') : e = e' := by
  cases mid with
  | nil =>
    obtain ⟨rfl, -⟩ := List.cons.inj heq
    exact ht.unique ht'
  | cons k mid =>
    obtain ⟨rfl, -⟩ := List.cons.inj heq
    obtain ⟨ty, hty⟩ := hmid t List.mem_cons_self
    exact absurd hty ht.not_hasTy

/-- There is at most one first fault. -/
theorem unique (h : FirstFault env ts e) (h' : FirstFault env ts e') : e = e' := by
  obtain ⟨before, t, later, rfl, hbefore, ht⟩ := h
  obtain ⟨before', t', later', heq, hbefore', ht'⟩ := h'
  rcases List.append_eq_append_iff.1 heq with ⟨mid, rfl, hmid⟩ | ⟨mid, rfl, hmid⟩
  · exact eq_of_cons_eq (List.forall_mem_append.1 hbefore').2 hmid ht ht'
  · exact (eq_of_cons_eq (List.forall_mem_append.1 hbefore).2 hmid ht' ht).symm

end FirstFault

end Term

end ImpC
