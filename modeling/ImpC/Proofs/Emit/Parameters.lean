import ImpC.Proofs.Build.Declared
import ImpC.Proofs.Emit.Relation
import ImpC.Proofs.Emit.Totality

/-!
# Parameters and the variables they are used as

A parameter has two types. Its uses in the body of its function, like those of every variable, have the type that the
one table of variables gives the name. The emitted function declares it with the type that the parameter itself was
written with. `Session.Run.parameter_type_iff` says when the two are the same: exactly if the first declaration of the name in
the whole run is written with the type of the parameter. This is always so where names must not be declared twice.

Where a name may be declared again the two can differ. The parameter then keeps its own type in the header although the
table has ignored it, and the body, which was checked against the table, uses an integer that C knows as a `double`
(`Session.Run.parameter_type_differs`).
-/

namespace ImpC

/-- The type with which a node uses the variable `x`. A variable and an assignment have it themselves; what is read is
looked up in the environment. -/
def Node.useTy? (env : Env) (x : String) : Node → Option Ty
  | ⟨.var y, ty⟩ => if y = x then ty else none
  | ⟨.assign y _, ty⟩ => if y = x then ty else none
  | ⟨.read y, _⟩ => if y = x then env.variableTy? y else none
  | _ => none

/-- The function declares a parameter or a local buffer for the variable `x`, as one of type `ty`. -/
def C.Function.Declares (c : C.Function) (x : String) : Ty → Prop
  | .int => ⟨.long, .var x⟩ ∈ c.params
  | .float => ⟨.double, .var x⟩ ∈ c.params
  | .text => ∃ capacity, .buffer (.var x) capacity ∈ c.body

/-- A node that follows its typing rule uses a variable with the type of the table. -/
theorem Node.Rule.useTy? {calls : Bool} {env : Env} {n : Node} {x : String} {ty : Ty} (h : n.Rule calls env)
    (hx : n.useTy? env x = some ty) : env.variableTy? x = some ty := by
  cases h with
  | var hy | assign hy =>
    obtain ⟨rfl, hty⟩ := Option.ite_none_right_eq_some.1 hx
    exact hy.trans hty
  | read =>
    obtain ⟨rfl, hty⟩ := Option.ite_none_right_eq_some.1 hx
    exact hty
  | int | float | text | binary | call | print | declare | branch | loop | count | block | function | ret => cases hx

namespace Emit

variable {o : EmitOptions}

theorem buffer_mem_entryCopies {x : String} {vars : List Variable} (h : ⟨x, .text⟩ ∈ vars) :
    C.Stmt.buffer (.var x) o.textCapacity ∈ entryCopies o vars := by
  induction vars with
  | nil => exact absurd h List.not_mem_nil
  | cons v vars ih =>
    obtain rfl | hvars := List.mem_cons.1 h
    · exact List.mem_cons_self
    · obtain ⟨y, ty⟩ := v
      cases ty with
      | text => exact List.mem_cons_of_mem _ (List.mem_cons_of_mem _ (ih hvars))
      | int | float => exact ih hvars

/-- **A function declares its parameters as they are written.** -/
theorem declares_of_function {readTy : String → Option Ty} {g : Function} {c : C.Function} {v : Variable}
    (h : function o readTy g = .ok c) (hv : v ∈ g.params) : c.Declares v.name v.ty := by
  obtain ⟨body, result, -, -, rfl⟩ := function_eq_ok h
  have hparam : param v ∈ params g.returnTy g.params := by
    unfold params
    split
    · exact List.mem_cons_of_mem _ (List.mem_map_of_mem hv)
    · exact List.mem_map_of_mem hv
  obtain ⟨x, ty⟩ := v
  cases ty with
  | int | float => exact hparam
  -- the pointer has a name of its own, and the variable is the buffer it is copied to
  | text => exact ⟨o.textCapacity, List.mem_append_left _ (List.mem_append_left _ (buffer_mem_entryCopies hv))⟩

end Emit

namespace Session

variable {options : BuildOptions} {s : Session} {g : Function} {v : Variable}

/-- **When a parameter is what it is used as.** For every parameter of every function that a builder has registered there
is a first declaration of its name in the run. The table gives the name the type of that declaration, and so do all uses
of the name in the function, while the emitted function declares it with the type of the parameter. The two are the same
exactly if the parameter is that declaration, as it is where names must not be declared twice. -/
theorem Run.parameter_type_iff (o : EmitOptions) (h : Run options start s) (hg : g ∈ s.env.funs.toList)
    (hv : v ∈ g.params) :
    ∃ first c, s.declarations.find? (·.name == v.name) = some first ∧ s.env.variableTy? v.name = some first.ty ∧
      (∀ (n : Node) ty, n.Within g.body ∨ n.Within g.result → n.useTy? s.env v.name = some ty → ty = first.ty) ∧
      Emit.function o s.env.variableTy? g = .ok c ∧ c.Declares v.name v.ty ∧
      (s.env.variableTy? v.name = some v.ty ↔ first = v) ∧
      (options.rejectRedeclaration = true → first = v) := by
  have hmem := h.param_mem_declarations hg hv
  obtain ⟨first, hfirst⟩ : ∃ first, s.declarations.find? (·.name == v.name) = some first :=
    Option.isSome_iff_exists.1 (List.find?_isSome.2 ⟨v, hmem, beq_self_eq_true _⟩)
  have hname : first.name = v.name := by simpa using List.find?_some hfirst
  have hfind : s.env.vars.find? v.name = some first := (h.tabulated.find? v.name).trans hfirst
  have hty : s.env.variableTy? v.name = some first.ty := congrArg (Option.map Variable.ty) hfind
  have hsound := h.sound.functions g hg
  obtain ⟨c, hc⟩ := Emit.exists_function o hsound.body.emittable hsound.result.emittable
  refine ⟨first, c, hfirst, hty, ?_, hc, Emit.declares_of_function hc hv, ?_, fun hreject => ?_⟩
  · intro n ty hn huse
    have hrule : n.Rule options.validateCalls s.env := hn.elim (hsound.body n) (hsound.result n)
    have htable := hrule.useTy? huse
    rw [hty] at htable
    exact (Option.some.inj htable).symm
  · rw [hty]
    constructor
    · intro heq
      obtain ⟨x, ty⟩ := first
      obtain ⟨y, ty'⟩ := v
      obtain rfl : x = y := hname
      obtain rfl : ty = ty' := Option.some.inj heq
      rfl
    · rintro rfl
      rfl
  · have hsame := h.vars_find?_of_reject hreject v hmem
    rw [hfind] at hsame
    exact Option.some.inj hsame

/-- A function that prints its parameter, which is a float. -/
def printing : Draft :=
  .construct (.function "f" [.construct (.declare ⟨"x", .float⟩)] (.construct (.print (.construct (.var "x"))))
    (.construct (.int 0)))

/-- Where names must not be declared twice the parameter is used as the float it is. -/
theorem Run.parameter_type_iff_printing :
    ∃ s g, Run { rejectRedeclaration := true } start s ∧ g ∈ s.env.funs.toList ∧ ⟨"x", .float⟩ ∈ g.params ∧
      s.env.variableTy? "x" = some .float ∧
      ∀ (n : Node) ty, n.Within g.body ∨ n.Within g.result → n.useTy? s.env "x" = some ty → ty = .float := by
  obtain ⟨s, root, hs, hexec, -⟩ :=
    Draft.exists_run { rejectRedeclaration := true } printing rfl start (by decide +kernel)
  have henv : s.env = (printing.build.exec { rejectRedeclaration := true } .empty).2 := (congrArg Prod.snd hexec).symm
  obtain ⟨g, hg, hparams⟩ : ∃ g ∈ s.env.funs.toList, g.params = [⟨"x", .float⟩] := by
    have hmap : s.env.funs.toList.map (·.params) = [[⟨"x", .float⟩]] := by
      rw [henv]
      decide +kernel
    refine List.mem_map.1 ?_
    rw [hmap]
    exact List.mem_singleton.2 rfl
  have hv : (⟨"x", .float⟩ : Variable) ∈ g.params := hparams ▸ List.mem_singleton.2 rfl
  obtain ⟨first, c, -, hty, huses, -, -, -, hreject⟩ := parameter_type_iff {} hs hg hv
  rw [hreject rfl] at hty huses
  exact ⟨s, g, hs, hg, hv, hty, huses⟩

/-- The same function behind the declaration of an integer of that name. -/
def retyped : Draft := .construct (.block [.construct (.declare ⟨"x", .int⟩), printing])

/-- The function as it is registered then. -/
def retypedFunction : Function :=
  ⟨"f", [⟨"x", .float⟩], .int, ⟨.print ⟨.var "x", some .int⟩, some .int⟩, ⟨.ret ⟨.int 0, some .int⟩, some .int⟩⟩

/-- **A parameter that is used as something else.** The name is an integer in the table and in the body, which prints it as
one, and a `double` in the header of the function. -/
theorem Run.parameter_type_differs :
    ∃ s g c, Run {} start s ∧ g ∈ s.env.funs.toList ∧ ⟨"x", .float⟩ ∈ g.params ∧ s.env.variableTy? "x" = some .int ∧
      g.body = ⟨.print ⟨.var "x", some .int⟩, some .int⟩ ∧ Emit.function {} s.env.variableTy? g = .ok c ∧
      ⟨.double, .var "x"⟩ ∈ c.params ∧ .expr (.call (.library .printf) [.text "%lld\n", .name (.var "x")]) ∈ c.body := by
  obtain ⟨s, root, hs, hexec, -⟩ := Draft.exists_run {} retyped rfl start (by decide +kernel)
  have henv : s.env = (retyped.build.exec {} .empty).2 := (congrArg Prod.snd hexec).symm
  have hfuns : s.env.funs.toList = [retypedFunction] := by
    rw [henv]
    rfl
  have hty : s.env.variableTy? "x" = some .int := by
    rw [henv]
    decide +kernel
  refine ⟨s, retypedFunction, _, hs, ?_, ?_, hty, rfl, rfl, ?_, ?_⟩
  · rw [hfuns]
    exact List.mem_singleton.2 rfl
  · exact List.mem_singleton.2 rfl
  · exact List.mem_singleton.2 rfl
  · exact List.mem_cons_self

end Session

end ImpC
