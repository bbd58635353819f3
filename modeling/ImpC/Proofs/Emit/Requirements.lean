import ImpC.Proofs.Emit.Totality

/-!
# When emission fails, and with which error

A tree need not come from a builder, and then anything may stand anywhere in it. Emission goes through a program once,
from the first function to the root, and stops where something is missing. A `Requirement` is what it needs at one
spot: a tree whose value is used has to be an expression, a tree that is printed has to have a type, and a variable
that is read has to be declared. `Env.requirements` lists the requirements of a program in the order in which emission
comes to them:

* the functions that a call can mean, in table order, each with its body in front of its last statement, and then the
  root;
* of a branch the condition in front of its alternatives, of a counting loop the first step, the condition, the body,
  and then the step after each round;
* of a printed value first that it has a type, and then the value itself;
* nothing of the definition of a function inside a tree.

The error of an emitting function is the error of the first requirement in its list that is not met
(`Emit.failure?_expr`, `Emit.failure?_stmt`). The equation carries all three outcomes at once: that there is no error,
that there is one, and which. Sequencing of emitting functions is then concatenation of lists (`Emit.failure?_bind`).
-/

namespace ImpC

/-- What emission needs at one spot of a program. -/
inductive Requirement where
  /-- A tree whose value is used is an expression. -/
  | value (n : Node)
  /-- A tree that is printed has a type. -/
  | printed (n : Node)
  /-- A variable that is read is declared. -/
  | target (x : String)

namespace Requirement

/-- What is needed is there. -/
def isMet (readTy : String → Option Ty) : Requirement → Bool
  | value n => n.isExpression
  | printed n => n.ty.isSome
  | target x => (readTy x).isSome

/-- What is reported if it is missing. -/
def error : Requirement → EmitError
  | value _ => .unexpectedStatement "an expression"
  | printed _ => .unexpectedStatement "a printed value"
  | target x => .unknownReadTarget x

/-- The error of the first requirement that is not met. -/
def firstError? (readTy : String → Option Ty) (ps : List Requirement) : Option EmitError :=
  (ps.find? fun p => !p.isMet readTy).map error

end Requirement

/-! ### The requirements of a program -/

mutual

/-- The requirements of a tree whose value is used, itself in front. -/
@[simp] def Node.requirements : Node → List Requirement
  | ⟨.binary op l r, ty⟩ => .value ⟨.binary op l r, ty⟩ :: (l.requirements ++ r.requirements)
  | ⟨.assign x v, ty⟩ => .value ⟨.assign x v, ty⟩ :: v.requirements
  | ⟨.call f ns, ty⟩ => .value ⟨.call f ns, ty⟩ :: Node.requirementsAll ns
  -- literals and variables have no parts, and a statement is refused as it stands
  | n => [.value n]

/-- The requirements of several trees whose values are used. -/
@[simp] def Node.requirementsAll : List Node → List Requirement
  | [] => []
  | n :: ns => n.requirements ++ Node.requirementsAll ns

end

mutual

/-- The requirements of a tree that is carried out as a statement. -/
@[simp] def Node.codeRequirements : Node → List Requirement
  | ⟨.declare _, _⟩ | ⟨.function .., _⟩ => []
  | ⟨.assign _ v, _⟩ | ⟨.ret v, _⟩ => v.requirements
  | ⟨.print v, _⟩ => .printed v :: v.requirements
  | ⟨.read x, _⟩ => [.target x]
  | ⟨.branch c a none, _⟩ => c.requirements ++ a.codeRequirements
  | ⟨.branch c a (some b), _⟩ => c.requirements ++ (a.codeRequirements ++ b.codeRequirements)
  | ⟨.loop c b, _⟩ => c.requirements ++ b.codeRequirements
  | ⟨.count i c u b, _⟩ => i.codeRequirements ++ (c.requirements ++ (b.codeRequirements ++ u.codeRequirements))
  | ⟨.block ns, _⟩ => Node.codeRequirementsAll ns
  | n => n.requirements

/-- The requirements of trees that are carried out one after the other. -/
@[simp] def Node.codeRequirementsAll : List Node → List Requirement
  | [] => []
  | n :: ns => n.codeRequirements ++ Node.codeRequirementsAll ns

end

/-- The requirements of a program. -/
def Env.requirements (env : Env) (root : Node) : List Requirement :=
  (env.emittedTrees root).flatMap Node.codeRequirements

theorem Node.requirementsAll_eq_flatMap (ns : List Node) : requirementsAll ns = ns.flatMap requirements := by
  induction ns with
  | nil => rfl
  | cons n ns ih => rw [requirementsAll, ih, List.flatMap_cons]

theorem Node.codeRequirementsAll_eq_flatMap (ns : List Node) :
    codeRequirementsAll ns = ns.flatMap codeRequirements := by
  induction ns with
  | nil => rfl
  | cons n ns ih => rw [codeRequirementsAll, ih, List.flatMap_cons]

namespace Requirement

variable {readTy : String → Option Ty} {p : Requirement} {ps qs : List Requirement}

theorem firstError?_cons_of_isMet (h : p.isMet readTy = true) :
    firstError? readTy (p :: ps) = firstError? readTy ps := by
  rw [firstError?, firstError?, List.find?_cons_of_neg (by rw [h]; decide)]

theorem firstError?_cons_of_not_isMet (h : p.isMet readTy = false) : firstError? readTy (p :: ps) = some p.error := by
  rw [firstError?, List.find?_cons_of_pos (by rw [h]; decide), Option.map_some]

@[simp] theorem firstError?_append :
    firstError? readTy (ps ++ qs) = (firstError? readTy ps).or (firstError? readTy qs) := by
  rw [firstError?, List.find?_append, firstError?, firstError?]
  cases ps.find? fun p => !p.isMet readTy with
  | none => rfl
  | some p => rfl

theorem firstError?_eq_none_iff : firstError? readTy ps = none ↔ ∀ p ∈ ps, p.isMet readTy = true := by
  rw [firstError?, Option.map_eq_none_iff, List.find?_eq_none]
  simp only [Bool.not_eq_true', Bool.not_eq_false]

/-- The first error is that of a requirement behind requirements that are met. -/
theorem firstError?_eq_some_iff {e : EmitError} :
    firstError? readTy ps = some e ↔ ∃ before p later, ps = before ++ p :: later ∧
      (∀ q ∈ before, q.isMet readTy = true) ∧ p.isMet readTy = false ∧ p.error = e := by
  rw [firstError?, Option.map_eq_some_iff]
  constructor
  · rintro ⟨p, hfind, herror⟩
    obtain ⟨hp, before, later, rfl, hbefore⟩ := List.find?_eq_some_iff_append.1 hfind
    exact ⟨before, p, later, rfl, by simpa using hbefore, by simpa using hp, herror⟩
  · rintro ⟨before, p, later, rfl, hbefore, hp, herror⟩
    refine ⟨p, List.find?_eq_some_iff_append.2 ⟨by simpa using hp, before, later, rfl, ?_⟩, herror⟩
    simpa using hbefore

end Requirement

namespace Emit

open C (Expr Stmt)

variable {o : EmitOptions} {readTy : String → Option Ty} {result : Option Ty} {n : Node}

/-! ### Errors of computations in sequence -/

/-- The error with which a computation stops. -/
def failure? {ε α : Type} : Except ε α → Option ε
  | .ok _ => none
  | .error e => some e

theorem failure?_eq_none_iff {ε α : Type} {x : Except ε α} : failure? x = none ↔ ∃ a, x = .ok a := by
  cases x with
  | error e => simp [failure?]
  | ok a => simp [failure?]

theorem failure?_eq_some_iff {ε α : Type} {x : Except ε α} {e : ε} : failure? x = some e ↔ x = .error e := by
  cases x with
  | error e => simp [failure?]
  | ok a => simp [failure?]

/-- If the second part fails in one way whatever the first one gives, the error is the first part's before it is that of
the second. -/
theorem failure?_bind {ε α β : Type} {x : Except ε α} {f : α → Except ε β} {later : Option ε}
    (h : ∀ a, failure? (f a) = later) : failure? (x >>= f) = (failure? x).or later := by
  cases x with
  | error e => rfl
  | ok a => exact h a

/-- A part that is followed by nothing that can fail. -/
theorem failure?_bind_ok {ε α β : Type} {x : Except ε α} {f : α → Except ε β} (h : ∀ a, failure? (f a) = none) :
    failure? (x >>= f) = failure? x := by
  rw [failure?_bind h, Option.or_none]

/-! ### Expressions -/

/-- The error for several trees, if for each of them it is that of its requirements. -/
theorem failure?_exprs {ns : List Node}
    (h : ∀ n ∈ ns, failure? (expr o n) = Requirement.firstError? readTy n.requirements) :
    failure? (exprs o ns) = Requirement.firstError? readTy (Node.requirementsAll ns) := by
  induction ns with
  | nil => rfl
  | cons n ns ih =>
    obtain ⟨hn, hns⟩ := List.forall_mem_cons.1 h
    rw [exprs, Node.requirementsAll, Requirement.firstError?_append, ← hn, ← ih hns]
    exact failure?_bind fun e => failure?_bind_ok fun es => rfl

/-- **The error for a value.** -/
theorem failure?_expr (o : EmitOptions) (readTy : String → Option Ty) (n : Node) :
    failure? (expr o n) = Requirement.firstError? readTy n.requirements := by
  induction n using Node.induction with
  | mk c ty ih =>
    cases c with
    | int | float | text | var => rfl
    | binary op l r =>
      have hl := ih l (by simp [Construct.parts])
      have hr := ih r (by simp [Construct.parts])
      rw [Node.requirements, Requirement.firstError?_cons_of_isMet rfl, Requirement.firstError?_append, ← hl, ← hr]
      exact failure?_bind fun left => failure?_bind_ok fun right => rfl
    | assign x v =>
      have hv := ih v (List.mem_singleton.2 rfl)
      rw [Node.requirements, Requirement.firstError?_cons_of_isMet rfl, ← hv]
      exact failure?_bind_ok fun value => rfl
    | call f ns =>
      have hargs : failure? (exprs o ns) = Requirement.firstError? readTy (Node.requirementsAll ns) := failure?_exprs ih
      rw [Node.requirements, Requirement.firstError?_cons_of_isMet rfl, ← hargs]
      exact failure?_bind_ok fun args => rfl
    | print | read | declare | branch | loop | count | block | function | ret => rfl

theorem failure?_condition (o : EmitOptions) (readTy : String → Option Ty) (n : Node) :
    failure? (condition o n) = Requirement.firstError? readTy n.requirements := by
  rw [← failure?_expr o readTy n]
  exact failure?_bind_ok fun e => rfl

/-! ### Statements -/

theorem failure?_assignment (o : EmitOptions) (readTy : String → Option Ty) (x : String) (v : Node) :
    failure? (assignment o x v) = Requirement.firstError? readTy v.requirements := by
  unfold assignment
  split
  -- a concatenation is refused for its operands only, like every other operation
  · next l r =>
    rw [Node.requirements, Requirement.firstError?_cons_of_isMet rfl, Requirement.firstError?_append, ← failure?_expr o,
      ← failure?_expr o]
    exact failure?_bind fun left => failure?_bind_ok fun right => rfl
  · rw [← failure?_expr o]
    exact failure?_bind_ok fun e => rfl

/-- A printed value is asked for its type before anything else. -/
theorem failure?_printing (o : EmitOptions) (readTy : String → Option Ty) (v : Node) :
    failure? (printing o v) = Requirement.firstError? readTy (.printed v :: v.requirements) := by
  unfold printing
  cases hty : v.ty with
  | none =>
    have hmissing : (Requirement.printed v).isMet readTy = false := by rw [Requirement.isMet, hty]; rfl
    rw [Requirement.firstError?_cons_of_not_isMet hmissing]
    rfl
  | some t =>
    have hmet : (Requirement.printed v).isMet readTy = true := by rw [Requirement.isMet, hty]; rfl
    rw [Requirement.firstError?_cons_of_isMet hmet, ← failure?_expr o]
    exact failure?_bind_ok fun e => rfl

theorem failure?_reading (o : EmitOptions) (readTy : String → Option Ty) (x : String) :
    failure? (reading o readTy x) = Requirement.firstError? readTy [.target x] := by
  unfold reading
  cases hty : readTy x with
  | none =>
    have hmissing : (Requirement.target x).isMet readTy = false := by rw [Requirement.isMet, hty]; rfl
    rw [Requirement.firstError?_cons_of_not_isMet hmissing]
    rfl
  | some t =>
    have hmet : (Requirement.target x).isMet readTy = true := by rw [Requirement.isMet, hty]; rfl
    rw [Requirement.firstError?_cons_of_isMet hmet]
    rfl

theorem failure?_evaluation (o : EmitOptions) (readTy : String → Option Ty) (n : Node) :
    failure? (evaluation o n) = Requirement.firstError? readTy n.requirements := by
  rw [← failure?_expr o readTy n]
  exact failure?_bind_ok fun e => rfl

theorem failure?_stmts {ns : List Node}
    (h : ∀ n ∈ ns, failure? (stmt o readTy result n) = Requirement.firstError? readTy n.codeRequirements) :
    failure? (stmts o readTy result ns) = Requirement.firstError? readTy (Node.codeRequirementsAll ns) := by
  induction ns with
  | nil => rfl
  | cons n ns ih =>
    obtain ⟨hn, hns⟩ := List.forall_mem_cons.1 h
    rw [stmts, Node.codeRequirementsAll, Requirement.firstError?_append, ← hn, ← ih hns]
    exact failure?_bind fun first => failure?_bind_ok fun rest => rfl

/-- **The error for a statement.** The induction is over the tree; each case is the order in which its code is put
together. -/
theorem failure?_stmt (o : EmitOptions) (readTy : String → Option Ty) (result : Option Ty) (n : Node) :
    failure? (stmt o readTy result n) = Requirement.firstError? readTy n.codeRequirements := by
  induction n using Node.induction with
  | mk c ty ih =>
    cases c with
    | declare | function => rfl
    | int | float | text | var | binary | call => exact failure?_evaluation o readTy _
    | assign x v =>
      rw [Node.codeRequirements, ← failure?_assignment o readTy x v]
      exact failure?_bind_ok fun s => rfl
    | print v =>
      rw [Node.codeRequirements, ← failure?_printing o readTy v]
      exact failure?_bind_ok fun s => rfl
    | read x =>
      rw [Node.codeRequirements, ← failure?_reading o readTy x]
      exact failure?_bind_ok fun s => rfl
    | ret v =>
      rw [Node.codeRequirements, ← failure?_expr o readTy v]
      exact (failure?_bind_ok fun s => rfl).trans (failure?_bind_ok fun value => rfl)
    | branch c a b =>
      have ha := ih a (by simp [Construct.parts])
      cases b with
      | none =>
        rw [Node.codeRequirements, Requirement.firstError?_append, ← failure?_condition o readTy c, ← ha]
        exact failure?_bind fun test => failure?_bind_ok fun consequent => rfl
      | some b =>
        have hb := ih b (by simp [Construct.parts])
        rw [Node.codeRequirements, Requirement.firstError?_append, Requirement.firstError?_append,
          ← failure?_condition o readTy c, ← ha, ← hb]
        exact failure?_bind fun test => failure?_bind fun consequent => failure?_bind_ok fun alternative => rfl
    | loop c b =>
      have hb := ih b (by simp [Construct.parts])
      rw [Node.codeRequirements, Requirement.firstError?_append, ← failure?_condition o readTy c, ← hb]
      exact failure?_bind fun test => failure?_bind_ok fun body => rfl
    | count i c u b =>
      have hi := ih i (by simp [Construct.parts])
      have hu := ih u (by simp [Construct.parts])
      have hb := ih b (by simp [Construct.parts])
      rw [Node.codeRequirements, Requirement.firstError?_append, Requirement.firstError?_append,
        Requirement.firstError?_append, ← failure?_condition o readTy c, ← hi, ← hb, ← hu]
      exact failure?_bind fun init => failure?_bind fun test => failure?_bind fun body =>
        failure?_bind_ok fun update => rfl
    | block ns =>
      rw [Node.codeRequirements]
      exact failure?_stmts ih

/-! ### Programs -/

theorem failure?_function (o : EmitOptions) (readTy : String → Option Ty) (g : Function) :
    failure? (function o readTy g) =
      Requirement.firstError? readTy (g.body.codeRequirements ++ g.result.codeRequirements) := by
  rw [Requirement.firstError?_append, ← failure?_stmt o readTy (some g.returnTy) g.body,
    ← failure?_stmt o readTy (some g.returnTy) g.result]
  exact failure?_bind fun body => failure?_bind_ok fun result => rfl

theorem failure?_functions (o : EmitOptions) (readTy : String → Option Ty) (gs : List Function) :
    failure? (functions o readTy gs) =
      Requirement.firstError? readTy ((gs.flatMap fun g => [g.body, g.result]).flatMap Node.codeRequirements) := by
  induction gs with
  | nil => rfl
  | cons g gs ih =>
    rw [List.flatMap_cons, List.flatMap_append, Requirement.firstError?_append, ← ih, List.flatMap_cons,
      List.flatMap_cons, List.flatMap_nil, List.append_nil, ← failure?_function o readTy g]
    exact failure?_bind fun first => failure?_bind_ok fun rest => rfl

/-- **The error for a program.** -/
theorem failure?_program (o : EmitOptions) (env : Env) (root : Node) :
    failure? (program o env root) = Requirement.firstError? env.variableTy? (env.requirements root) := by
  rw [Env.requirements, Env.emittedTrees, List.flatMap_append, Requirement.firstError?_append, ← failure?_functions o,
    List.flatMap_cons, List.flatMap_nil, List.append_nil, ← failure?_stmt o env.variableTy? none root]
  exact failure?_bind fun functions => failure?_bind_ok fun main => rfl

theorem failure?_programText (o : EmitOptions) (env : Env) (root : Node) :
    failure? (programText o env root) = Requirement.firstError? env.variableTy? (env.requirements root) := by
  rw [← failure?_program o env root]
  exact failure?_bind_ok fun p => rfl

/-! ### Where nothing is missing -/

theorem value_mem_requirements (n : Node) : .value n ∈ n.requirements := by
  obtain ⟨c, ty⟩ := n
  cases c <;> exact List.mem_cons_self

/-- The requirements of an operand or an argument are requirements of the whole. -/
theorem mem_requirements_of_part {c : Construct Node} {ty : Option Ty} {m : Node} {p : Requirement}
    (hc : c.isExpression = true) (hm : m ∈ c.parts) (hp : p ∈ m.requirements) : p ∈ Node.requirements ⟨c, ty⟩ := by
  cases c with
  | binary op l r =>
    apply List.mem_cons_of_mem
    obtain rfl | rfl : m = l ∨ m = r := by simpa [Construct.parts] using hm
    · exact List.mem_append_left _ hp
    · exact List.mem_append_right _ hp
  | assign x v =>
    obtain rfl := List.mem_singleton.1 hm
    exact List.mem_cons_of_mem _ hp
  | call f ns =>
    apply List.mem_cons_of_mem
    rw [Node.requirementsAll_eq_flatMap]
    exact List.mem_flatMap_of_mem hm hp
  | int | float | text | var => exact absurd hm List.not_mem_nil
  | print | read | declare | branch | loop | count | block | function | ret => cases hc

theorem isPure_of_requirements (h : ∀ p ∈ n.requirements, p.isMet readTy = true) : n.IsPure := by
  induction n using Node.induction with
  | mk c ty ih =>
    have htop : c.isExpression = true := h _ (value_mem_requirements _)
    refine Node.everywhere_iff.2 ⟨htop, fun m hm => ih m hm fun p hp => h p ?_⟩
    exact mem_requirements_of_part htop hm hp

theorem emittable_of_requirements (h : ∀ p ∈ n.codeRequirements, p.isMet readTy = true) : Emittable readTy n := by
  induction n using Node.induction with
  | mk c ty ih =>
    cases c with
    | declare v => exact .declare v ty
    | function f ps b r => exact .function f ps b r ty
    | int | float | text | var | binary | call => exact .effect (isPure_of_requirements h)
    | assign x v =>
      have hv : v.IsPure := isPure_of_requirements h
      refine .effect (Node.everywhere_iff.2 ⟨rfl, fun m hm => ?_⟩)
      obtain rfl := List.mem_singleton.1 hm
      exact hv
    | print v =>
      obtain ⟨hty, hv⟩ := List.forall_mem_cons.1 h
      obtain ⟨t, ht⟩ := Option.isSome_iff_exists.1 hty
      exact .print ht (isPure_of_requirements hv) ty
    | read x =>
      obtain ⟨t, ht⟩ := Option.isSome_iff_exists.1 (h _ (List.mem_singleton.2 rfl))
      exact .read ht ty
    | ret v => exact .ret (isPure_of_requirements h) ty
    | branch c a b =>
      cases b with
      | none =>
        obtain ⟨hc, ha⟩ := List.forall_mem_append.1 h
        exact .branch (isPure_of_requirements hc) (ih a (by simp [Construct.parts]) ha) (by simp) ty
      | some b =>
        obtain ⟨hc, hab⟩ := List.forall_mem_append.1 h
        obtain ⟨ha, hb⟩ := List.forall_mem_append.1 hab
        refine .branch (isPure_of_requirements hc) (ih a (by simp [Construct.parts]) ha) (fun m hm => ?_) ty
        obtain rfl := Option.some.inj hm
        exact ih _ (by simp [Construct.parts]) hb
    | loop c b =>
      obtain ⟨hc, hb⟩ := List.forall_mem_append.1 h
      exact .loop (isPure_of_requirements hc) (ih b (by simp [Construct.parts]) hb) ty
    | count i c u b =>
      obtain ⟨hi, hcbu⟩ := List.forall_mem_append.1 h
      obtain ⟨hc, hbu⟩ := List.forall_mem_append.1 hcbu
      obtain ⟨hb, hu⟩ := List.forall_mem_append.1 hbu
      exact .count (ih i (by simp [Construct.parts]) hi) (isPure_of_requirements hc)
        (ih u (by simp [Construct.parts]) hu)
        (ih b (by simp [Construct.parts]) hb) ty
    | block ns =>
      rw [Node.codeRequirements, Node.codeRequirementsAll_eq_flatMap] at h
      refine .block (fun m hm => ih m hm fun p hp => h p ?_) ty
      exact List.mem_flatMap_of_mem hm hp

/-- **A tree can be emitted exactly if its requirements are met.** -/
theorem emittable_iff : Emittable readTy n ↔ ∀ p ∈ n.codeRequirements, p.isMet readTy = true := by
  refine ⟨fun h => ?_, emittable_of_requirements⟩
  -- whatever is emitted has no first error, and the options do not matter
  obtain ⟨ss, hss⟩ := exists_stmt .standard none h
  rw [← Requirement.firstError?_eq_none_iff, ← failure?_stmt .standard readTy none, hss]
  rfl

/-- **The outcome of emission**, whatever the tree and the functions are made of. The program comes out exactly if all
trees that are emitted have values where values are used, types where something is printed, and declared variables where
something is read; and otherwise the error is that of the first requirement in the order of emission that is not met. -/
theorem program_outcome (o : EmitOptions) (env : Env) (root : Node) :
    ((∃ text, programText o env root = .ok text) ↔ ∀ n ∈ env.emittedTrees root, Emittable env.variableTy? n) ∧
      ∀ e, programText o env root = .error e ↔
        ∃ before p later, env.requirements root = before ++ p :: later ∧
          (∀ q ∈ before, q.isMet env.variableTy? = true) ∧ p.isMet env.variableTy? = false ∧ p.error = e := by
  constructor
  · rw [← failure?_eq_none_iff, failure?_programText, Requirement.firstError?_eq_none_iff, Env.requirements]
    constructor
    · intro h n hn
      exact emittable_iff.2 fun p hp => h p (List.mem_flatMap_of_mem hn hp)
    · intro h p hp
      obtain ⟨n, hn, hp⟩ := List.mem_flatMap.1 hp
      exact emittable_iff.1 (h n hn) p hp
  · intro e
    rw [← failure?_eq_some_iff, failure?_programText, Requirement.firstError?_eq_some_iff]

/-- A loop that reads a variable first, prints in each round a statement without a type, and then reads another
variable. -/
def misshapen : Node :=
  ⟨.count ⟨.read "x", none⟩ ⟨.int 1, some .int⟩ ⟨.read "y", none⟩ ⟨.print ⟨.ret ⟨.int 2, none⟩, none⟩, none⟩, none⟩

/-- A function that adds a declaration to a number. -/
def misadding : Function :=
  ⟨"f", [], .int, ⟨.block [], none⟩,
    ⟨.ret ⟨.binary .add ⟨.int 1, some .int⟩ ⟨.declare ⟨"z", .int⟩, none⟩, some .int⟩, some .int⟩⟩

/-- The environment in which `x` is declared and `y` is not. -/
def halfDeclared : Env := (Env.empty.declareVariable ⟨"x", .int⟩).2

/-- Four things are wrong with the loop. They are found one after the other: the variable that is read first; once it is
declared, the type of what is printed, before that it is no expression and before the variable that is read last; and
once a function is registered, what is wrong with the function. -/
theorem program_outcome_misshapen :
    programText {} .empty misshapen = .error (.unknownReadTarget "x") ∧
      programText {} halfDeclared misshapen = .error (.unexpectedStatement "a printed value") ∧
      programText {} (halfDeclared.registerFunction misadding) misshapen =
        .error (.unexpectedStatement "an expression") ∧
      ¬ ∀ n ∈ halfDeclared.emittedTrees misshapen, Emittable halfDeclared.variableTy? n := by
  have hprinted : programText {} halfDeclared misshapen = .error (.unexpectedStatement "a printed value") := by
    refine ((program_outcome {} halfDeclared misshapen).2 _).2 ?_
    refine ⟨[.target "x", .value ⟨.int 1, some .int⟩], .printed ⟨.ret ⟨.int 2, none⟩, none⟩, _, rfl, ?_, rfl, rfl⟩
    simp only [List.forall_mem_cons]
    exact ⟨by decide +kernel, rfl, nofun⟩
  refine ⟨?_, hprinted, ?_, fun h => ?_⟩
  · refine ((program_outcome {} .empty misshapen).2 _).2 ?_
    exact ⟨[], .target "x", _, rfl, nofun, by decide +kernel, rfl⟩
  · refine ((program_outcome {} (halfDeclared.registerFunction misadding) misshapen).2 _).2 ?_
    refine ⟨[.value ⟨.binary .add ⟨.int 1, some .int⟩ ⟨.declare ⟨"z", .int⟩, none⟩, some .int⟩,
      .value ⟨.int 1, some .int⟩], .value ⟨.declare ⟨"z", .int⟩, none⟩, _, rfl, ?_, rfl, rfl⟩
    simp only [List.forall_mem_cons]
    exact ⟨rfl, rfl, nofun⟩
  · obtain ⟨text, htext⟩ := (program_outcome {} halfDeclared misshapen).1.2 h
    rw [hprinted] at htext
    cases htext

end Emit

end ImpC
