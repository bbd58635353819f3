import ImpC.Proofs.Build.Declared
import ImpC.Proofs.C.Types
import ImpC.Proofs.Emit.CallGraph
import ImpC.Proofs.Emit.Relation

/-!
# Printed values and their conversions

The language has one type of integers, and C has two that stand for it: a comparison is an `int`, everything else that is
an integer is a `long long`. What is printed by `%lld` has to be a `long long`, and so a printed comparison is converted.
The test for that looks at the outermost construct only.

`Node.isFlag` describes the trees whose expression is an `int` in C: comparisons, and sums, differences and products of
such trees. For all other trees the type in C is the one that belongs to the static type. This is
`Emit.EmitsExpr.valueTy?`, for a scope that declares the names with the types of the environment (`Emit.Faithful`). The scope
of `main` is one, and so is that of a function whose parameters have the types that the table gives their names
(`Emit.Place.faithful`).

So a value is printed with the type that its conversion asks for, unless it is put together from comparisons by
arithmetic (`Session.Run.printed_type_iff`); there the conversion is missing (`Session.Run.printed_sum_of_flags`).
-/

namespace ImpC

/-- The type in C that belongs to a static type. -/
def Ty.valueTy : Ty → C.ValueTy
  | .int => .long
  | .float => .double
  | .text => .chars

/-- The tree is a comparison, or arithmetic on such trees that C carries out itself. -/
def Node.isFlag : Node → Bool
  | ⟨.binary op l r, _⟩ => op.isComparison || (!op.isGuarded && l.isFlag && r.isFlag)
  | _ => false

/-- A flag is an integer. -/
theorem Node.ty_of_isFlag {env : Env} {n : Node} (h : n.WellTyped env) (hflag : n.isFlag = true) : n.ty = some .int := by
  induction n using Node.induction with
  | mk c ty ih =>
    cases h.top with
    | @binary op l r left right ty hl hr hop =>
      rw [isFlag, Bool.or_eq_true, Bool.and_eq_true, Bool.and_eq_true] at hflag
      obtain hcmp | ⟨⟨-, hleft⟩, hright⟩ := hflag
      · rw [BinOp.resultTy?, if_pos hcmp] at hop
        obtain ⟨-, hty⟩ := Option.ite_none_right_eq_some.1 hop
        exact hty.symm
      -- both operands are integers, and so is what is computed from them
      · have hl' := ih l (by simp [Construct.parts]) (h.part (by simp [Construct.parts])) hleft
        have hr' := ih r (by simp [Construct.parts]) (h.part (by simp [Construct.parts])) hright
        obtain rfl : left = .int := Option.some.inj (hl.ty_eq.symm.trans hl')
        obtain rfl : right = .int := Option.some.inj (hr.ty_eq.symm.trans hr')
        rw [BinOp.resultTy?, if_pos rfl, BinOp.arithmeticTy?, ite_self] at hop
        exact hop.symm
    | int | float | text | var | assign | call | print | read | declare | branch | loop | count | block | function
    | ret => cases hflag

namespace Emit

open C (Expr Stmt ValueTy)

variable {o : EmitOptions} {readTy : String → Option Ty} {result : Option Ty} {env : Env} {n : Node}

/-- The type in C of an expression for a value of type `ty`, which is a flag or not. -/
def emittedTy (flag : Bool) (ty : Ty) : ValueTy := if flag then .int else ty.valueTy

/-! ### The type of an expression -/

/-- The scope declares variables, functions and routines with the types that the environment gives them. -/
structure Faithful (env : Env) (scope : C.Name → Option ValueTy) : Prop where
  var : ∀ {x ty}, env.variableTy? x = some ty → scope (.var x) = some ty.valueTy
  function : ∀ {f g}, env.function? f = some g → scope (.function f) = some g.returnTy.valueTy
  helper : ∀ h : C.Helper, scope (.helper h) = h.function.returns.valueTy?
  strcmp : scope (.library .strcmp) = some .int

section Operation

variable {op : BinOp} {left right ty : Ty} {fl fr : Bool}

/-- Two numbers are converted to the type of the result, and two flags stay what they are. -/
theorem common?_emittedTy (hleft : left ≠ .text) (hfl : fl = true → left = .int) (hfr : fr = true → right = .int)
    (hty : op.arithmeticTy? left right = some ty) :
    (emittedTy fl left).common? (emittedTy fr right) = some (emittedTy (fl && fr) ty) := by
  cases left with
  | text => exact absurd rfl hleft
  | int | float =>
    cases right with
    | text => cases hty
    | int | float =>
      cases hty
      cases fl <;> cases fr <;> simp_all [emittedTy, Ty.valueTy, ValueTy.common?]

theorem operation_of_isComparison {ty leftTy : Option Ty} {l r : Expr} (h : op.isComparison = true) :
    operation o op ty leftTy l r =
      if leftTy = some .text then .binary op (.call (.library .strcmp) [l, r]) (.size 0) else .binary op l r := by
  cases op
  case add | sub | mul | div | mod => cases h
  all_goals
    unfold operation
    simp only [BinOp.isComparison, Bool.true_and, decide_eq_true_eq]

/-- **The type of an operation.** It is an `int` for a comparison and for arithmetic on two flags that C carries out
itself, and else the type that belongs to the static type. -/
theorem valueTy?_operation {scope : C.Name → Option ValueTy} (hscope : Faithful env scope) {l r : Expr}
    (hl : l.valueTy? scope = some (emittedTy fl left)) (hr : r.valueTy? scope = some (emittedTy fr right))
    (hfl : fl = true → left = .int) (hfr : fr = true → right = .int) (hop : op.resultTy? left right = some ty) :
    (operation o op (some ty) (some left) l r).valueTy? scope =
      some (emittedTy (op.isComparison || (!op.isGuarded && fl && fr)) ty) := by
  unfold BinOp.resultTy? at hop
  split at hop
  · next hcmp =>
    obtain ⟨rfl, heq⟩ := Option.ite_none_right_eq_some.1 hop
    cases heq
    have hmod : op ≠ .mod := by
      rintro rfl
      cases hcmp
    rw [operation_of_isComparison hcmp, hcmp, Bool.true_or]
    split
    -- two texts: what is compared with zero is the answer of `strcmp`
    · have hstrcmp : (Expr.call (.library .strcmp) [l, r]).valueTy? scope = some .int := hscope.strcmp
      rw [Expr.valueTy?_binary hstrcmp rfl rfl hmod, if_pos hcmp]
      rfl
    -- two numbers, whose common type does not matter
    · next hne =>
      have hleft : left ≠ .text := fun htext => hne (congrArg some htext)
      have hnumber : BinOp.sub.arithmeticTy? left left = some left := by
        cases left <;> first | rfl | exact absurd rfl hleft
      rw [Expr.valueTy?_binary hl hr (common?_emittedTy hleft hfl hfr hnumber) hmod, if_pos hcmp]
      rfl
  · next hcmp =>
    have hplain : left ≠ .text → op ≠ .mod →
        (Expr.binary op l r).valueTy? scope = some (emittedTy (fl && fr) ty) := by
      intro hleft hmod
      rw [Expr.valueTy?_binary hl hr (common?_emittedTy hleft hfl hfr hop) hmod, if_neg hcmp]
    cases op with
    | eq | ne | lt | le | gt | ge => exact absurd rfl hcmp
    | add =>
      by_cases htext : ty = .text
      -- a concatenation, of operands that are no flags
      · subst htext
        obtain rfl : left = .text := by
          cases left <;> cases right <;> first | rfl | cases hop
        have hflag : fl = false := by
          cases fl
          · rfl
          · cases hfl rfl
        rw [hflag]
        exact hscope.helper .textConcat
      · have hleft : left ≠ .text := by
          rintro rfl
          cases right <;> first | exact absurd (Option.some.inj hop).symm htext | cases hop
        have hne : ¬ (some ty = some Ty.text) := fun heq => htext (Option.some.inj heq)
        rw [operation, if_neg hne]
        exact hplain hleft (by decide)
    | sub | mul =>
      refine hplain ?_ (by decide)
      rintro rfl
      cases right <;> cases hop
    -- the routine that looks at the divisor returns a number of the type of the result
    | div | mod =>
      cases ty with
      | int => exact hscope.helper _
      | float => exact hscope.helper _
      | text => cases left <;> cases right <;> cases hop

end Operation

/-- **The type of an emitted expression** in a scope that declares the names with their types. -/
theorem EmitsExpr.valueTy? {scope : C.Name → Option ValueTy} (hscope : Faithful env scope) {e : Expr}
    (h : EmitsExpr o n e) (hn : n.WellTyped env) {ty : Ty} (hty : n.ty = some ty) :
    e.valueTy? scope = some (emittedTy n.isFlag ty) := by
  induction h generalizing ty with
  | int v | float v | text v =>
    cases hn.top
    cases hty
    rfl
  | var x =>
    cases hn.top with
    | var hx =>
      cases hty
      exact hscope.var hx
  | @binary op _ l r left right hl hr ihl ihr =>
    cases hn.top with
    | @binary _ _ _ leftTy rightTy _ hleft hright hop =>
      cases hty
      have hnl : l.WellTyped env := hn.part (by simp [Construct.parts])
      have hnr : r.WellTyped env := hn.part (by simp [Construct.parts])
      rw [hleft.ty_eq]
      refine valueTy?_operation hscope (ihl hnl hleft.ty_eq) (ihr hnr hright.ty_eq) ?_ ?_ hop
      · intro hflag
        exact Option.some.inj (hleft.ty_eq.symm.trans (Node.ty_of_isFlag hnl hflag))
      · intro hflag
        exact Option.some.inj (hright.ty_eq.symm.trans (Node.ty_of_isFlag hnr hflag))
  | assign x _ hv ih =>
    cases hn.top with
    | assign hx hvalue =>
      cases hty
      split
      -- a text is assigned by a copy, and the copy is given back
      · next htext =>
        obtain rfl := Option.some.inj htext
        exact hscope.helper .textCopy
      · exact hscope.var hx
  | call f _ args hargs ih =>
    cases hn.top with
    | call hvalues hf =>
      cases hty
      obtain ⟨g, hg, -, -, rfl⟩ := hf rfl
      exact hscope.function hg

/-! ### The scopes of a program -/

variable {root : Node} {p : C.Program} {c : C.Function} {params : List Variable} {ns : List Node}

/-- The function `c` of the program is the code of the trees `ns`, under the given parameters. -/
inductive Place (o : EmitOptions) (env : Env) (root : Node) (p : C.Program) :
    C.Function → List Variable → List Node → Prop where
  | main : Place o env root p p.main [] [root]
  | function {g : Function} {c : C.Function} (hg : g ∈ env.funs.firsts) (hc : c ∈ p.functions)
      (h : function o env.variableTy? g = .ok c) : Place o env root p c g.params [g.body, g.result]

theorem Place.mem_emittedTrees (h : Place o env root p c params ns) (hn : n ∈ ns) : n ∈ env.emittedTrees root := by
  refine Env.mem_emittedTrees.2 ?_
  cases h with
  | main => exact .inr (List.mem_singleton.1 hn)
  | @function g _ hg => exact .inl ⟨g, hg, by simpa using hn⟩

theorem fileTy?_var (hp : program o env root = .ok p) {x : String} {ty : Ty} (hx : env.variableTy? x = some ty) :
    p.fileTy? (.var x) = some ty.valueTy := by
  obtain ⟨cs, main, -, -, rfl⟩ := program_eq_ok hp
  obtain ⟨v, hv, rfl⟩ := Option.map_eq_some_iff.1 hx
  rw [Registry.find?_eq] at hv
  -- the variables at file scope are found as they are in the table
  have hname : ∀ w : Variable, ((global o w).name == .var x) = (w.name == x) := by
    intro w
    have : (global o w).name = .var w.name := by
      obtain ⟨y, _ | _ | _⟩ := w <;> rfl
    rw [this, Bool.eq_iff_iff, beq_iff_eq, beq_iff_eq, C.Name.var.injEq]
  have hfind : (env.vars.toList.map (global o)).find? (·.name == .var x) = some (global o v) := by
    rw [List.find?_map, Function.comp_def]
    simp only [hname]
    rw [hv]
    rfl
  rw [C.Program.fileTy?, hfind]
  obtain ⟨y, _ | _ | _⟩ := v <;> rfl

theorem fileTy?_function (hp : program o env root = .ok p) {f : String} {g : Function}
    (hf : env.function? f = some g) : p.fileTy? (.function f) = some g.returnTy.valueTy := by
  obtain ⟨cs, main, hcs, -, rfl⟩ := program_eq_ok hp
  obtain ⟨-, rfl⟩ := Env.mem_of_function? hf
  -- a function of that name is emitted, and all that are come from the entry that calls see
  obtain ⟨d, hd, hgd⟩ := exists_mem_functions hcs (Registry.mem_firsts_iff.2 hf)
  obtain ⟨d', hd'⟩ : ∃ d', cs.find? (·.name == .function g.name) = some d' :=
    Option.isSome_iff_exists.1 (List.find?_isSome.2 ⟨d, hd, beq_iff_eq.2 (name_of_function hgd)⟩)
  obtain ⟨g', hmem, hg'⟩ := exists_of_mem_functions hcs (List.mem_of_find?_eq_some hd')
  have hname : g'.name = g.name := by
    have hname := List.find?_some hd'
    rw [name_of_function hg'] at hname
    exact C.Name.function.inj (beq_iff_eq.1 hname)
  have hsame := Registry.mem_firsts_iff.1 hmem
  rw [hname] at hsame
  obtain rfl : g' = g := Option.some.inj (hsame.symm.trans hf)
  rw [C.Program.fileTy?, hd']
  obtain ⟨body, result, -, -, rfl⟩ := function_eq_ok hg'
  cases g'.returnTy <;> rfl

/-- Outside a scope of its own, no statement for a tree declares a buffer. -/
theorem EmitsStmts.bufferName? {ss : List Stmt} (h : EmitsStmts o readTy result n ss) :
    ss.filterMap Stmt.bufferName? = [] := by
  induction h with
  | declare | function | concatenate | assign | print | read | branch | choice | loop | ret | evaluate => rfl
  | count ty hi hc hb hu ihi ihb ihu =>
    rw [List.filterMap_append, ihi]
    rfl
  | block ty parts hparts ih =>
    refine List.filterMap_eq_nil_iff.2 fun s hs => ?_
    obtain ⟨q, hq, hs⟩ := List.mem_flatMap.1 hs
    exact List.filterMap_eq_nil_iff.1 (ih q hq) s hs

theorem bufferName?_entryCopies {vars : List Variable} {m : C.Name}
    (h : m ∈ (entryCopies o vars).filterMap Stmt.bufferName?) : ∃ x, ⟨x, .text⟩ ∈ vars ∧ m = .var x := by
  fun_induction entryCopies o vars with
  | case1 => exact absurd h List.not_mem_nil
  | case2 x rest ih =>
    obtain rfl | h := List.mem_cons.1 h
    · exact ⟨x, List.mem_cons_self, rfl⟩
    · obtain ⟨y, hy, rfl⟩ := ih h
      exact ⟨y, List.mem_cons_of_mem _ hy, rfl⟩
  | case3 x rest ih | case4 x rest ih =>
    obtain ⟨y, hy, rfl⟩ := ih h
    exact ⟨y, List.mem_cons_of_mem _ hy, rfl⟩

/-- **What a function declares for itself.** A variable is declared only as a parameter, with the type of the
parameter. -/
theorem Place.localTy?_eq_some (hp : program o env root = .ok p) (h : Place o env root p c params ns) {m : C.Name}
    {ty : ValueTy} (hm : c.localTy? m = some ty) :
    (∃ v ∈ params, m = .var v.name ∧ ty = v.ty.valueTy) ∨ (∃ x, m = .argument x) ∨ m = .result := by
  cases h with
  | main =>
    obtain ⟨cs, main, -, hmain, rfl⟩ := program_eq_ok hp
    rw [C.Function.localTy?] at hm
    simp [C.mainFunction, hmain.bufferName?, Stmt.bufferName?] at hm
  | @function g _ hg hc hgc =>
    obtain ⟨body, result, hbody, hresult, rfl⟩ := function_eq_ok hgc
    unfold C.Function.localTy? at hm
    split at hm
    · next q hq =>
      have hname : q.name = m := by simpa using List.find?_some hq
      have hmem : q = ⟨.chars, .result⟩ ∨ ∃ v ∈ g.params, param v = q := by
        have hmem : q ∈ Emit.params g.returnTy g.params := List.mem_of_find?_eq_some hq
        unfold Emit.params at hmem
        split at hmem
        · simpa using hmem
        · exact .inr (List.mem_map.1 hmem)
      obtain rfl | ⟨⟨x, t⟩, hv, rfl⟩ := hmem
      · exact .inr (.inr hname.symm)
      · cases t with
        | int | float =>
          cases hm
          exact .inl ⟨_, hv, hname.symm, rfl⟩
        | text => exact .inr (.inl ⟨x, hname.symm⟩)
    -- not a parameter, but perhaps the buffer of one
    · obtain ⟨hbuffer, heq⟩ := Option.ite_none_right_eq_some.1 hm
      cases heq
      rw [List.filterMap_append, List.filterMap_append, hbody.bufferName?, hresult.bufferName?, List.append_nil,
        List.append_nil] at hbuffer
      obtain ⟨x, hx, rfl⟩ := bufferName?_entryCopies hbuffer
      exact .inl ⟨_, hx, rfl, rfl⟩

/-- **Where parameters have the types of the table, names have the types of the environment.** -/
theorem Place.faithful (hp : program o env root = .ok p) (h : Place o env root p c params ns)
    (hparams : ∀ v ∈ params, env.variableTy? v.name = some v.ty) : Faithful env (p.typeIn c) := by
  -- only variables are declared inside a function
  have hfile : ∀ m, (∀ x, m ≠ .var x) → (∀ x, m ≠ .argument x) → m ≠ .result → p.typeIn c m = p.fileTy? m := by
    intro m hvar hargument hresult
    have hnone : c.localTy? m = none := by
      refine Option.eq_none_iff_forall_ne_some.2 fun ty hty => ?_
      obtain ⟨v, -, hm, -⟩ | ⟨x, hm⟩ | hm := h.localTy?_eq_some hp hty
      · exact hvar _ hm
      · exact hargument x hm
      · exact hresult hm
    rw [C.Program.typeIn, hnone, Option.none_or]
  refine ⟨fun {x ty} hx => ?_, fun {f g} hf => ?_, fun k => ?_, ?_⟩
  · rw [C.Program.typeIn, fileTy?_var hp hx]
    cases hlocal : c.localTy? (.var x) with
    | none => rfl
    | some t =>
      obtain ⟨v, hv, hm, rfl⟩ | ⟨y, hm⟩ | hm := h.localTy?_eq_some hp hlocal
      · obtain rfl := C.Name.var.inj hm
        rw [hparams v hv] at hx
        cases hx
        rfl
      · cases hm
      · cases hm
  · rw [hfile (.function f) nofun nofun nofun, fileTy?_function hp hf]
  · exact hfile (.helper k) nofun nofun nofun
  · exact hfile (.library .strcmp) nofun nofun nofun

theorem conversionTy?_printFormat (ty : Ty) : C.conversionTy? (printFormat ty) = some ty.valueTy := by
  cases ty <;> rfl

theorem isFlag_of_isComparison (h : isComparison n = true) : n.isFlag = true := by
  unfold isComparison at h
  split at h
  · rw [Node.isFlag, h, Bool.true_or]
  · cases h

/-- **The type of what is printed.** It is the one that the format asks for, unless the value is a flag that was put
together by arithmetic, which is an `int`. -/
theorem valueTy?_printed {scope : C.Name → Option ValueTy} {v : Node} {t : Ty} {value : Expr} (hscope : Faithful env scope)
    (hv : v.WellTyped env) (ht : v.ty = some t) (he : EmitsExpr o v value) :
    ((if isComparison v then Expr.toLong value else value).valueTy? scope = C.conversionTy? (printFormat t) ↔
        (v.isFlag = true → isComparison v = true)) ∧
      (v.isFlag = true → isComparison v = false →
        t = .int ∧ (if isComparison v then Expr.toLong value else value).valueTy? scope = some .int) := by
  have hty := he.valueTy? hscope hv ht
  rw [conversionTy?_printFormat]
  -- a flag is an integer, and what is not a flag has the type of its own
  by_cases hflag : v.isFlag = true
  · obtain rfl : t = .int := Option.some.inj (ht.symm.trans (Node.ty_of_isFlag hv hflag))
    rw [hflag] at hty
    cases hcmp : isComparison v with
    | true =>
      refine ⟨iff_of_true ?_ fun _ => rfl, nofun⟩
      rw [if_pos rfl, C.Expr.valueTy?, hty]
      rfl
    | false =>
      refine ⟨iff_of_false ?_ fun himp => ?_, fun _ _ => ⟨rfl, hty⟩⟩
      · rw [if_neg Bool.false_ne_true, hty]
        decide
      · cases himp hflag
  · have hcmp : isComparison v = false := by
      refine Bool.eq_false_iff.2 fun hcmp => hflag (isFlag_of_isComparison hcmp)
    refine ⟨iff_of_true ?_ fun htrue => absurd htrue hflag, fun htrue => absurd htrue hflag⟩
    rw [hcmp, if_neg Bool.false_ne_true, hty, Bool.eq_false_iff.2 hflag]
    rfl

end Emit

/-! ### Printed values -/

namespace Session

/-- **When a printed value has the type of its conversion.** On a builder that validates calls, whatever it was asked for
and whichever of its trees is taken for the root: wherever a print statement stands in the program, in `main` or in a
function whose parameters have the types of the table, it is emitted, and its argument has the type in C that the format
asks for, unless the value is put together from comparisons by arithmetic. The argument is then an `int` where a
`long long` is asked for. -/
theorem Run.printed_type_iff {options : BuildOptions} {s : Session} {root : Node} (o : EmitOptions)
    (hv : options.validateCalls = true) (h : Run options start s) (hroot : root ∈ s.nodes) :
    ∃ p, Emit.program o s.env root = .ok p ∧
      ∀ c params ns, Emit.Place o s.env root p c params ns →
        (options.rejectRedeclaration = true ∨ ∀ v ∈ params, s.env.variableTy? v.name = some v.ty) →
        ∀ n ∈ ns, ∀ v ty, Node.Within ⟨.print v, ty⟩ n →
          ∃ t argument, v.ty = some t ∧
            (∀ readTy result, Emit.stmt o readTy result ⟨.print v, ty⟩ =
              .ok [.expr (.call (.library .printf) [.text (Emit.printFormat t), argument])]) ∧
            (argument.valueTy? (p.typeIn c) = C.conversionTy? (Emit.printFormat t) ↔
              (v.isFlag = true → Emit.isComparison v = true)) ∧
            (v.isFlag = true → Emit.isComparison v = false →
              t = .int ∧ argument.valueTy? (p.typeIn c) = some .int) := by
  obtain ⟨p, hp⟩ := h.exists_program hroot o
  refine ⟨p, hp, fun c params ns hplace hparams n hn v ty hwithin => ?_⟩
  have hparams : ∀ x ∈ params, s.env.variableTy? x.name = some x.ty := by
    obtain hreject | hparams := hparams
    · cases hplace with
      | main => nofun
      | function hg => exact fun x hx => h.variableTy?_param_of_reject hreject (Registry.mem_of_mem_firsts hg) hx
    · exact hparams
  have hscope := hplace.faithful hp hparams
  have hprint := (h.wellTyped_emittedTrees hv hroot (hplace.mem_emittedTrees hn)).within hwithin
  have hvalue : v.WellTyped s.env := hprint.part (List.mem_singleton.2 rfl)
  cases hprint.top with
  | @print _ t hasValue =>
    obtain ⟨value, he⟩ := Emit.exists_expr o (hasValue.isPure hvalue)
    have hstmt : ∀ readTy result, Emit.stmt o readTy result ⟨.print v, some t⟩ =
        .ok [.expr (.call (.library .printf)
          [.text (Emit.printFormat t), if Emit.isComparison v then .toLong value else value])] := by
      intro readTy result
      rw [Emit.stmt, Emit.printing, hasValue.ty_eq]
      simp only [he]
      rfl
    exact ⟨t, _, hasValue.ty_eq, hstmt, Emit.valueTy?_printed hscope hvalue hasValue.ty_eq (Emit.emitsExpr_of_expr he)⟩

/-- Prints the sum of a comparison and a number. -/
def counted : Draft :=
  .construct (.print (.construct (.binary .add
    (.construct (.binary .lt (.construct (.int 1)) (.construct (.int 2)))) (.construct (.int 3)))))

/-- The sum of a comparison and a number is a `long long`, as its conversion asks. -/
theorem Run.printed_type_iff_counted :
    ∃ s root p argument, Run {} start s ∧ root ∈ s.nodes ∧ Emit.program {} s.env root = .ok p ∧
      Emit.stmt {} s.env.variableTy? none root =
        .ok [.expr (.call (.library .printf) [.text "%lld\n", argument])] ∧
      argument.valueTy? (p.typeIn p.main) = some .long := by
  obtain ⟨s, root, hs, hexec, hmem⟩ := Draft.exists_run {} counted rfl start (by decide +kernel)
  obtain rfl : root = ⟨.print ⟨.binary .add ⟨.binary .lt ⟨.int 1, some .int⟩ ⟨.int 2, some .int⟩, some .int⟩
      ⟨.int 3, some .int⟩, some .int⟩, some .int⟩ := by
    have hanswer : (counted.build.exec {} .empty).1 = .ok root := congrArg Prod.fst hexec
    refine Except.ok.inj (hanswer.symm.trans ?_)
    rfl
  obtain ⟨p, hp, hplaces⟩ := printed_type_iff {} rfl hs hmem
  obtain ⟨t, argument, ht, hstmt, hiff, -⟩ :=
    hplaces _ _ _ .main (.inr nofun) _ (List.mem_singleton.2 rfl) _ _ (.refl _)
  cases ht
  exact ⟨s, _, p, argument, hs, hmem, hp, hstmt _ _, hiff.2 nofun⟩

/-- Prints the sum of two comparisons. -/
def addedFlags : Draft :=
  .construct (.print (.construct (.binary .add
    (.construct (.binary .lt (.construct (.int 1)) (.construct (.int 2))))
    (.construct (.binary .lt (.construct (.int 3)) (.construct (.int 4)))))))

/-- **A conversion that is missing.** The sum of two comparisons is printed as a `long long`, and is an `int`. -/
theorem Run.printed_sum_of_flags :
    ∃ s root p argument, Run {} start s ∧ root ∈ s.nodes ∧ addedFlags.build.exec {} .empty = (.ok root, s.env) ∧
      Emit.program {} s.env root = .ok p ∧
      p.main.body = [.expr (.call (.library .printf) [.text "%lld\n", argument]), .ret (.size 0)] ∧
      argument.toText = "(1LL < 2LL) + (3LL < 4LL)" ∧ argument.valueTy? (p.typeIn p.main) = some .int ∧
      C.conversionTy? "%lld\n" = some .long := by
  obtain ⟨s, root, hs, hexec, hmem⟩ := Draft.exists_run {} addedFlags rfl start (by decide +kernel)
  obtain rfl : root = ⟨.print ⟨.binary .add ⟨.binary .lt ⟨.int 1, some .int⟩ ⟨.int 2, some .int⟩, some .int⟩
      ⟨.binary .lt ⟨.int 3, some .int⟩ ⟨.int 4, some .int⟩, some .int⟩, some .int⟩, some .int⟩ := by
    have hanswer : (addedFlags.build.exec {} .empty).1 = .ok root := congrArg Prod.fst hexec
    refine Except.ok.inj (hanswer.symm.trans ?_)
    rfl
  have henv : s.env = (addedFlags.build.exec {} .empty).2 := (congrArg Prod.snd hexec).symm
  have hfuns : s.env.funs.firsts = [] := by
    rw [henv]
    rfl
  obtain ⟨p, hp⟩ := hs.exists_program hmem {}
  have hbody : p.main.body = [.expr (.call (.library .printf) [.text "%lld\n",
      .binary .add (.binary .lt (.long 1) (.long 2)) (.binary .lt (.long 3) (.long 4))]), .ret (.size 0)] := by
    unfold Emit.program at hp
    rw [hfuns] at hp
    cases hp
    rfl
  exact ⟨s, _, p, _, hs, hmem, hexec, hp, hbody, by decide +kernel, rfl, rfl⟩

end Session

end ImpC
