import ImpC.Proofs.Emit.Relation
import ImpC.Proofs.Emit.Totality
import Mathlib.Data.List.Forall2

/-!
# What a function returns

A function is registered with the type that its last statement returns. Its body may return as well, from inside of
branches, loops and blocks, and nothing compares what is returned there with the type of the function. When a `return` is
emitted, the type of the function decides alone how: a function of texts copies the value to the buffer of its caller,
and any other function returns the value as it is.

`Node.CarriedOut m n` says that the statement `m` is carried out as a part of `n`, and `Node.returned` lists the values of
the return statements that are, in the order of their code. The values that an emitted function returns are those for
the list, one for each (`Emit.EmitsStmts.returned`). So the returns of a function all have its type exactly if the return
statements in its body do (`Session.Run.return_types_iff`).

They need not: a number can be handed to the copy of texts, and a pointer to a text be returned as a number
(`Session.Run.return_types_differ`).
-/

namespace ImpC

/-! ### Return statements in a tree -/

/-- The parts of a construct that are carried out as statements, in the order of their code. Those of a definition are
carried out by calls of the function. -/
def Construct.statements {α : Type} : Construct α → List α
  | branch _ a b => a :: b.toList
  | loop _ b => [b]
  | count i _ u b => [i, b, u]
  | block ns => ns
  | int _ | float _ | text _ | var _ | binary .. | assign .. | call .. | print _ | read _ | declare _ | function ..
  | ret _ => []

theorem Construct.statements_subset_parts (c : Construct Node) : c.statements ⊆ c.parts := by
  intro k hk
  cases c with
  | branch | block => simp_all [statements, parts]
  | loop c b => exact List.mem_cons_of_mem _ hk
  | count i c u b =>
    simp only [statements, parts, List.mem_cons, List.not_mem_nil, or_false] at hk ⊢
    tauto
  | _ => exact absurd hk List.not_mem_nil

namespace Node

/-- The statement `m` is carried out as a part of the tree `n`, at any depth of branches, loops and blocks. -/
inductive CarriedOut (m : Node) : Node → Prop where
  | self : CarriedOut m m
  | inside {c : Construct Node} {ty : Option Ty} {k : Node} (hk : k ∈ c.statements) (hm : CarriedOut m k) :
      CarriedOut m ⟨c, ty⟩

mutual

/-- The values of the return statements that are carried out as parts of a tree. -/
@[simp] def returned : Node → List Node
  | ⟨.ret v, _⟩ => [v]
  | ⟨.branch _ a none, _⟩ => a.returned
  | ⟨.branch _ a (some b), _⟩ => a.returned ++ b.returned
  | ⟨.loop _ b, _⟩ => b.returned
  | ⟨.count i _ u b, _⟩ => i.returned ++ (b.returned ++ u.returned)
  | ⟨.block ns, _⟩ => returnedAll ns
  | _ => []

/-- The values of the return statements in trees that are carried out one after the other. -/
@[simp] def returnedAll : List Node → List Node
  | [] => []
  | n :: ns => n.returned ++ returnedAll ns

end

theorem returnedAll_eq_flatMap (ns : List Node) : returnedAll ns = ns.flatMap returned := by
  induction ns with
  | nil => rfl
  | cons n ns ih => rw [returnedAll, ih, List.flatMap_cons]

/-- A construct other than a return statement returns what its statements return. -/
theorem returned_eq_flatMap {c : Construct Node} (hc : c.isReturn = false) (ty : Option Ty) :
    returned ⟨c, ty⟩ = c.statements.flatMap returned := by
  cases c with
  | ret v => cases hc
  | branch c a b =>
    cases b with
    | none => simp [Construct.statements]
    | some b => simp [Construct.statements]
  | loop c b => simp [Construct.statements]
  | count i c u b => simp [Construct.statements]
  | block ns => rw [returned, returnedAll_eq_flatMap, Construct.statements]
  | int | float | text | var | binary | assign | call | print | read | declare | function => rfl

/-- The values that are returned are those of the return statements that are carried out. -/
theorem mem_returned_iff {v n : Node} : v ∈ n.returned ↔ ∃ ty, CarriedOut ⟨.ret v, ty⟩ n := by
  induction n using Node.induction with
  | mk c ty ih =>
    by_cases hc : c.isReturn = true
    · cases c with
      | ret w =>
        constructor
        · intro h
          obtain rfl := List.mem_singleton.1 h
          exact ⟨ty, .self⟩
        · rintro ⟨ty', h⟩
          cases h with
          | self => exact List.mem_singleton.2 rfl
          | inside hk => exact absurd hk List.not_mem_nil
      | _ => cases hc
    · rw [returned_eq_flatMap (Bool.eq_false_iff.2 hc), List.mem_flatMap]
      constructor
      · rintro ⟨k, hk, hv⟩
        obtain ⟨ty', h⟩ := (ih k (c.statements_subset_parts hk)).1 hv
        exact ⟨ty', .inside hk h⟩
      · rintro ⟨ty', h⟩
        cases h with
        | self => exact absurd rfl hc
        | inside hk h => exact ⟨_, hk, (ih _ (c.statements_subset_parts hk)).2 ⟨ty', h⟩⟩

/-- What is carried out as a part of a tree stands in it. -/
theorem CarriedOut.within {m n : Node} (h : CarriedOut m n) : m.Within n := by
  induction h with
  | self => exact .refl m
  | inside hk _ ih => exact .part (Construct.statements_subset_parts _ hk) ih

end Node

/-! ### Return statements in emitted code -/

namespace C

mutual

/-- The values of the return statements in a statement, at every depth. -/
@[simp] def Stmt.returned : Stmt → List Expr
  | .ret e => [e]
  | .branch _ a none => Stmt.returnedAll a
  | .branch _ a (some b) => Stmt.returnedAll a ++ Stmt.returnedAll b
  | .loop _ b | .block b => Stmt.returnedAll b
  | .expr _ | .buffer .. | .declare .. | .store .. => []

/-- The values of the return statements in statements in sequence. -/
@[simp] def Stmt.returnedAll : List Stmt → List Expr
  | [] => []
  | s :: ss => s.returned ++ Stmt.returnedAll ss

end

theorem Stmt.returnedAll_eq_flatMap (ss : List Stmt) : returnedAll ss = ss.flatMap returned := by
  induction ss with
  | nil => rfl
  | cons s ss ih => rw [returnedAll, ih, List.flatMap_cons]

@[simp] theorem Stmt.returnedAll_append (ss ts : List Stmt) :
    returnedAll (ss ++ ts) = returnedAll ss ++ returnedAll ts := by
  rw [returnedAll_eq_flatMap, List.flatMap_append, ← returnedAll_eq_flatMap, ← returnedAll_eq_flatMap]

@[simp] theorem Stmt.returnedAll_singleton (s : Stmt) : returnedAll [s] = s.returned := List.append_nil _

end C

namespace Emit

open C (Expr Stmt)

variable {o : EmitOptions} {readTy : String → Option Ty} {n w : Node} {returnTy : Ty} {e : Expr} {ss : List Stmt}

/-- What a function of the type `returnTy` returns for the value `w`: a text is expected to be copied to the buffer of the
caller, whatever the value is. -/
def Returns (o : EmitOptions) (returnTy : Ty) (w : Node) (e : Expr) : Prop :=
  ∃ value, EmitsExpr o w value ∧ e = if returnTy = .text then copyText o .result value else value

/-- **Each return statement is emitted once, in its place.** -/
theorem EmitsStmts.returned (h : EmitsStmts o readTy (some returnTy) n ss) :
    List.Forall₂ (Returns o returnTy) n.returned (Stmt.returnedAll ss) := by
  induction h with
  | declare | function | concatenate | assign | print | read => exact .nil
  | branch ty hc ha iha =>
    rw [Stmt.returnedAll_singleton]
    exact iha
  | choice ty hc ha hb iha ihb =>
    rw [Stmt.returnedAll_singleton]
    exact List.rel_append iha ihb
  | loop ty hc hb ihb =>
    rw [Stmt.returnedAll_singleton]
    exact ihb
  | count ty hi hc hb hu ihi ihb ihu =>
    rw [Stmt.returnedAll_append, Stmt.returnedAll_singleton, Stmt.returned, Stmt.returnedAll_append]
    exact List.rel_append ihi (List.rel_append ihb ihu)
  | block ty parts hparts ih =>
    rw [Node.returned, Node.returnedAll_eq_flatMap, Stmt.returnedAll_eq_flatMap, List.flatMap_assoc, List.flatMap_map]
    simp only [← Stmt.returnedAll_eq_flatMap]
    clear hparts
    induction parts with
    | nil => exact .nil
    | cons p parts ihparts =>
      obtain ⟨hp, hparts⟩ := List.forall_mem_cons.1 ih
      exact List.rel_append hp (ihparts hparts)
  | ret ty hv =>
    refine .cons ⟨_, hv, ?_⟩ .nil
    simp only [Option.some.injEq]
  | @evaluate n e hn hassign =>
    -- an expression is no return statement and has none in it
    have hnil : n.returned = [] := by cases hn <;> rfl
    rw [hnil]
    exact .nil

theorem returnedAll_entryCopies (vars : List Variable) : Stmt.returnedAll (entryCopies o vars) = [] := by
  fun_induction entryCopies o vars with
  | case1 => rfl
  | case2 x rest ih => exact ih
  | case3 x rest ih | case4 x rest ih => exact ih

/-- The values that an emitted function returns. -/
theorem returned_of_function {g : Function} {c : C.Function} (h : function o readTy g = .ok c) :
    List.Forall₂ (Returns o g.returnTy) (g.body.returned ++ g.result.returned) (Stmt.returnedAll c.body) := by
  obtain ⟨body, result, hbody, hresult, rfl⟩ := function_eq_ok h
  rw [Stmt.returnedAll_append, Stmt.returnedAll_append, returnedAll_entryCopies, List.nil_append]
  exact List.rel_append hbody.returned hresult.returned

end Emit

/-- The last statement of a registered function returns a value of the type of the function. -/
theorem Function.Sound.exists_result {calls : Bool} {env : Env} {g : Function} (h : g.Sound calls env) :
    ∃ v, g.result = ⟨.ret v, some g.returnTy⟩ ∧ v.HasValue g.returnTy := by
  obtain ⟨f, params, returnTy, body, result⟩ := g
  have hreturn : result.construct.isReturn = true := h.isReturn
  have hty : result.ty = some returnTy := h.ty_eq
  -- of all the rules only that of a return statement is about a node that returns
  cases h.result.top with
  | ret hv =>
    obtain rfl := Option.some.inj hty
    exact ⟨_, rfl, hv⟩
  | _ => cases hreturn

namespace Session

variable {options : BuildOptions} {s : Session} {g : Function}

/-- **When all returns of a function have its type.** Take any function that a builder has registered, whatever its options.
The last statement returns a value of the type of the function. The values that the emitted function returns are those of
the return statements in the body and then this one; each is returned as the type of the function demands, and has some
type of its own. It is the type of the function for all of them exactly if every return statement that is carried out in
the body has that type. -/
theorem Run.return_types_iff (o : EmitOptions) (h : Run options start s) (hg : g ∈ s.env.funs.toList) :
    ∃ c v, Emit.function o s.env.variableTy? g = .ok c ∧ g.result = ⟨.ret v, some g.returnTy⟩ ∧
      v.HasValue g.returnTy ∧
      List.Forall₂ (Emit.Returns o g.returnTy) (g.body.returned ++ [v]) (C.Stmt.returnedAll c.body) ∧
      (∀ w ∈ g.body.returned, ∃ t, w.HasValue t) ∧
      ((∀ w ∈ g.body.returned ++ [v], w.HasValue g.returnTy) ↔
        ∀ w ty, Node.CarriedOut ⟨.ret w, ty⟩ g.body → ty = some g.returnTy) := by
  have hsound := h.sound.functions g hg
  -- a return statement in the body follows its rule, which gives its value the type of the statement
  have hrule : ∀ w ty, Node.CarriedOut ⟨.ret w, ty⟩ g.body → ∃ t, ty = some t ∧ w.HasValue t := by
    intro w ty hw
    cases hsound.body _ hw.within with
    | ret hv => exact ⟨_, rfl, hv⟩
  obtain ⟨v, hresult, hv⟩ := hsound.exists_result
  obtain ⟨c, hc⟩ := Emit.exists_function o hsound.body.emittable hsound.result.emittable
  have hreturned := Emit.returned_of_function hc
  rw [hresult] at hreturned
  refine ⟨c, v, hc, hresult, hv, hreturned, ?_, ?_, ?_⟩
  · intro w hw
    obtain ⟨ty, hw⟩ := Node.mem_returned_iff.1 hw
    obtain ⟨t, -, hwt⟩ := hrule w ty hw
    exact ⟨t, hwt⟩
  · intro hall w ty hw
    obtain ⟨t, rfl, hwt⟩ := hrule w ty hw
    have hwg := hall w (List.mem_append_left _ (Node.mem_returned_iff.2 ⟨_, hw⟩))
    rw [← hwg.ty_eq, hwt.ty_eq]
  · intro hall
    refine List.forall_mem_append.2 ⟨fun w hw => ?_, List.forall_mem_singleton.2 hv⟩
    obtain ⟨ty, hw⟩ := Node.mem_returned_iff.1 hw
    obtain ⟨t, rfl, hwt⟩ := hrule w ty hw
    obtain rfl := Option.some.inj (hall w _ hw)
    exact hwt

/-- A function that gives back its parameter, or something else for an empty one. -/
def defaulting : Draft :=
  .construct (.function "f" [.construct (.declare ⟨"x", .text⟩)]
    (.construct (.branch (.construct (.var "x")) (.construct (.ret (.construct (.var "x")))) none))
    (.construct (.text "none")))

/-- The function as it is registered. -/
def defaultingFunction : Function :=
  ⟨"f", [⟨"x", .text⟩], .text,
    ⟨.branch ⟨.var "x", some .text⟩ ⟨.ret ⟨.var "x", some .text⟩, some .text⟩ none, none⟩,
    ⟨.ret ⟨.text "none", some .text⟩, some .text⟩⟩

/-- A text is returned from inside of a branch and at the end, and copied to the caller both times. -/
theorem Run.return_types_iff_defaulting :
    ∃ s c, Run {} start s ∧ s.env.funs.toList = [defaultingFunction] ∧
      Emit.function {} s.env.variableTy? defaultingFunction = .ok c ∧
      (C.Stmt.returnedAll c.body).length = 2 ∧
      ∀ w ty, Node.CarriedOut ⟨.ret w, ty⟩ defaultingFunction.body → ty = some .text := by
  obtain ⟨s, root, hs, hexec, -⟩ := Draft.exists_run {} defaulting rfl start (by decide +kernel)
  have hfuns : s.env.funs.toList = [defaultingFunction] := by
    rw [show s.env = (defaulting.build.exec {} .empty).2 from (congrArg Prod.snd hexec).symm]
    rfl
  have hmem : defaultingFunction ∈ s.env.funs.toList := hfuns ▸ List.mem_singleton.2 rfl
  obtain ⟨c, v, hc, hresult, hv, hreturned, -, hiff⟩ := return_types_iff {} hs hmem
  refine ⟨s, c, hs, hfuns, hc, hreturned.length_eq.symm, hiff.1 ?_⟩
  exact List.forall_mem_append.2 ⟨List.forall_mem_singleton.2 ⟨rfl, rfl⟩, List.forall_mem_singleton.2 hv⟩

/-- A function of integers that returns its parameter, a text, from inside of a branch, and a function of texts that returns
a number from its body. -/
def mismatched : Draft :=
  .construct (.block
    [.construct (.function "f" [.construct (.declare ⟨"x", .text⟩)]
       (.construct (.branch (.construct (.int 1)) (.construct (.ret (.construct (.var "x")))) none))
       (.construct (.int 0))),
     .construct (.function "g" [] (.construct (.ret (.construct (.int 1)))) (.construct (.text "a")))])

/-- The two functions as they are registered. -/
def mismatchedFunctions : Function × Function :=
  (⟨"f", [⟨"x", .text⟩], .int,
      ⟨.branch ⟨.int 1, some .int⟩ ⟨.ret ⟨.var "x", some .text⟩, some .text⟩ none, none⟩,
      ⟨.ret ⟨.int 0, some .int⟩, some .int⟩⟩,
    ⟨"g", [], .text, ⟨.ret ⟨.int 1, some .int⟩, some .int⟩, ⟨.ret ⟨.text "a", some .text⟩, some .text⟩⟩)

/-- **Returns of another type.** The builder accepts both functions. The first is emitted as a function of `long long` that
returns the pointer to its local buffer, and the second copies a number as if it were a text. -/
theorem Run.return_types_differ :
    ∃ s cf cg, Run {} start s ∧ s.env.funs.toList = [mismatchedFunctions.1, mismatchedFunctions.2] ∧
      Node.CarriedOut ⟨.ret ⟨.var "x", some .text⟩, some .text⟩ mismatchedFunctions.1.body ∧
      mismatchedFunctions.1.returnTy = .int ∧ Emit.function {} s.env.variableTy? mismatchedFunctions.1 = .ok cf ∧
      cf.returns = .long ∧ .buffer (.var "x") 100 ∈ cf.body ∧ .name (.var "x") ∈ C.Stmt.returnedAll cf.body ∧
      Node.CarriedOut ⟨.ret ⟨.int 1, some .int⟩, some .int⟩ mismatchedFunctions.2.body ∧
      mismatchedFunctions.2.returnTy = .text ∧ Emit.function {} s.env.variableTy? mismatchedFunctions.2 = .ok cg ∧
      Emit.copyText {} .result (.long 1) ∈ C.Stmt.returnedAll cg.body := by
  obtain ⟨s, root, hs, hexec, -⟩ := Draft.exists_run {} mismatched rfl start (by decide +kernel)
  have hfuns : s.env.funs.toList = [mismatchedFunctions.1, mismatchedFunctions.2] := by
    rw [show s.env = (mismatched.build.exec {} .empty).2 from (congrArg Prod.snd hexec).symm]
    rfl
  refine ⟨s, _, _, hs, hfuns, ?_, rfl, rfl, rfl, ?_, ?_, .self, rfl, rfl, ?_⟩
  · exact .inside List.mem_cons_self .self
  · exact List.mem_cons_self
  · exact List.mem_cons_self
  · exact List.mem_cons_self

end Session

end ImpC
