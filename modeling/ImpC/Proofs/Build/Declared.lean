import ImpC.Proofs.Build.Run

/-!
# Variables and their first declarations

`Session.declarations` lists the variables of all declarations that a builder has given out, in order. The table of
variables is a function of that list: a name is found in the table as it is found in the list, at its first declaration
(`Session.Run.tabulated`).

That definitions of functions have no part in this is not obvious, since a definition declares its parameters. But the
parameters are declarations that were given out before, so their names are in the table already, and declaring them once
more adds nothing (`Build.declareParams_of_known`). What a request does to the variables is therefore `Session.after_vars`:
nothing, or one declaration that it gives out. Where names must not be declared twice, the names of the list are distinct,
and each declaration is found (`Session.Run.vars_find?_of_reject`).
-/

namespace ImpC

/-- The variable that a tree declares. -/
def Node.declared? : Node → Option Variable
  | ⟨.declare v, _⟩ => some v
  | _ => none

theorem Node.declared?_eq_some {n : Node} {v : Variable} : n.declared? = some v ↔ n.construct = .declare v := by
  obtain ⟨c, ty⟩ := n
  cases c <;> simp [declared?, Node.construct]

/-! ### Definitions declare nothing new -/

namespace Env

theorem declareVariable_of_hasVariable {env : Env} {v : Variable} (h : env.hasVariable v.name = true) :
    env.declareVariable v = (false, env) := if_pos h

/-- A declaration that adds nothing, or adds an entry behind the others. -/
theorem vars_find?_declareVariable (env : Env) (v : Variable) (x : String) :
    (env.declareVariable v).2.vars.find? x = (env.vars.find? x).or (if v.name = x then some v else none) := by
  rw [Registry.find?_eq, Registry.find?_eq, vars_declareVariable]
  by_cases hv : env.hasVariable v.name = true
  · rw [if_pos hv]
    by_cases hx : v.name = x
    · subst hx
      -- the name is found among the entries that are there
      obtain ⟨w, hw⟩ : ∃ w, env.vars.toList.find? (·.name == v.name) = some w := by
        unfold hasVariable at hv
        rw [Registry.contains_eq] at hv
        exact Option.isSome_iff_exists.1 (List.find?_isSome.2 (List.any_eq_true.1 hv))
      rw [hw, Option.some_or]
    · rw [if_neg hx, Option.or_none]
  · rw [if_neg hv, List.find?_append]
    by_cases hx : v.name = x <;> simp [hx]

end Env

namespace Build

variable {options : BuildOptions} {env : Env} {c : Construct Node}

/-- Parameters whose names are declared already change nothing. -/
theorem declareParams_of_known {f : String} {ps : List Node}
    (h : ∀ p ∈ ps, ∀ v, p.declared? = some v → env.hasVariable v.name = true) : (declareParams f env ps).2 = env := by
  induction ps with
  | nil => rfl
  | cons p ps ih =>
    obtain ⟨hp, hps⟩ := List.forall_mem_cons.1 h
    unfold declareParams
    split
    · rfl
    · next v _ _ heq =>
      obtain ⟨rfl, rfl⟩ := List.cons.inj heq
      rw [Env.declareVariable_of_hasVariable (hp v rfl)]
      exact ih hps
    · rfl

theorem vars_define {f : String} {ps : List Node} (b r : Node)
    (h : ∀ p ∈ ps, ∀ v, p.declared? = some v → env.hasVariable v.name = true) :
    (define env f ps b r).2.vars = env.vars := by
  have hparams := declareParams_of_known (f := f) h
  unfold define
  split
  · next e env' heq =>
    rw [heq] at hparams
    exact congrArg Env.vars hparams
  · next vars env' heq =>
    rw [heq] at hparams
    split
    · exact congrArg Env.vars hparams
    -- the function enters the other table
    · rw [Env.vars_registerFunction]
      exact congrArg Env.vars hparams

/-- **What a step does to the variables.** It declares one, which it gives out, or it changes nothing. -/
theorem vars_build (options : BuildOptions) (env : Env) (c : Construct Node)
    (h : ∀ p ∈ c.parts, ∀ v, p.declared? = some v → env.hasVariable v.name = true) :
    (∃ v, build options env c = (.ok ⟨.declare v, none⟩, (env.declareVariable v).2) ∧
      (options.rejectRedeclaration = true → env.hasVariable v.name = false)) ∨
    ((build options env c).2.vars = env.vars ∧ ∀ n, (build options env c).1 = .ok n → n.declared? = none) := by
  unfold build
  cases hty : staticTy options env c with
  | error e => exact .inr ⟨rfl, nofun⟩
  | ok ty =>
    cases c with
    | declare v =>
      obtain rfl := staticTy_of_isDeclaration rfl hty
      refine .inl ⟨v, rfl, fun hreject => ?_⟩
      simp only [staticTy, hreject, Bool.true_and] at hty
      split at hty
      · cases hty
      · next hnot => exact Bool.eq_false_iff.2 hnot
    | function f ps b r =>
      refine .inr ⟨vars_define b r fun p hp => h p (List.mem_append_left _ hp), fun n hn => ?_⟩
      obtain rfl := staticTy_of_isDeclaration rfl hty
      obtain ⟨env', hdefine⟩ : ∃ env', define env f ps b r = (.ok n, env') := ⟨_, Prod.ext hn rfl⟩
      cases builds_of_define hty hdefine with
      | define => rfl
      | typed plain => cases plain
    | int | float | text | var | binary | assign | call | print | read | branch | loop | count | block | ret =>
      refine .inr ⟨rfl, fun n hn => ?_⟩
      cases hn
      rfl

end Build

/-! ### One request, and a whole run -/

namespace Session

variable {options : BuildOptions} {s t : Session} {q : Request}

/-- The variables that were declared, in the order of their declarations, with repetitions. -/
def declarations (s : Session) : List Variable := s.nodes.filterMap Node.declared?

theorem mem_declarations {v : Variable} : v ∈ s.declarations ↔ ∃ n ∈ s.nodes, n.declared? = some v :=
  List.mem_filterMap

/-- **What a request does to the variables.** It gives out one declaration and declares its variable, or it changes
neither the declarations nor the table. -/
theorem after_vars (options : BuildOptions) (known : ∀ v ∈ s.declarations, s.env.hasVariable v.name = true)
    (own : ∀ n ∈ q.parts, n ∈ s.nodes) :
    (∃ v, (s.after options q).declarations = s.declarations ++ [v] ∧
      (s.after options q).env.vars = (s.env.declareVariable v).2.vars ∧
      (options.rejectRedeclaration = true → s.env.hasVariable v.name = false)) ∨
    ((s.after options q).declarations = s.declarations ∧ (s.after options q).env.vars = s.env.vars) := by
  have hparts : ∀ p ∈ q.parts, ∀ v, p.declared? = some v → s.env.hasVariable v.name = true :=
    fun p hp v hv => known v (mem_declarations.2 ⟨p, own p hp, hv⟩)
  -- a request is the building of a construct, or fails before anything is built
  have hanswer : (∃ v, q.answer options s.env = (.ok ⟨.declare v, none⟩, (s.env.declareVariable v).2) ∧
        (options.rejectRedeclaration = true → s.env.hasVariable v.name = false)) ∨
      ((q.answer options s.env).2.vars = s.env.vars ∧ ∀ n, (q.answer options s.env).1 = .ok n → n.declared? = none) := by
    cases q with
    | construct c => exact Build.vars_build options s.env c hparts
    | binary token l r =>
      rw [Request.answer_binary]
      split
      · exact Build.vars_build options s.env _ hparts
      · exact .inr ⟨rfl, nofun⟩
  unfold declarations
  rw [nodes_after, List.filterMap_append]
  obtain ⟨v, heq, hreject⟩ | ⟨hvars, hnone⟩ := hanswer
  · refine .inl ⟨v, ?_, congrArg (·.2.vars) heq, hreject⟩
    rw [heq]
    rfl
  · refine .inr ⟨?_, hvars⟩
    cases hfirst : (q.answer options s.env).1 with
    | error e => exact List.append_nil _
    | ok n =>
      have hn := hnone n hfirst
      simp [Except.toOption, hn]

/-- The table finds the declarations as a search does. -/
structure Tabulated (s : Session) : Prop where
  find? : ∀ x, s.env.vars.find? x = s.declarations.find? (·.name == x)

theorem Tabulated.known (h : s.Tabulated) : ∀ v ∈ s.declarations, s.env.hasVariable v.name = true := by
  intro v hv
  obtain ⟨w, hw⟩ : ∃ w, s.declarations.find? (·.name == v.name) = some w :=
    Option.isSome_iff_exists.1 (List.find?_isSome.2 ⟨v, hv, beq_self_eq_true _⟩)
  refine Env.hasVariable_iff.2 ⟨w.ty, ?_⟩
  unfold Env.variableTy?
  rw [h.find?, hw]
  rfl

theorem Tabulated.after (h : s.Tabulated) (own : ∀ n ∈ q.parts, n ∈ s.nodes) : (s.after options q).Tabulated := by
  constructor
  intro x
  obtain ⟨v, hdeclarations, hvars, -⟩ | ⟨hdeclarations, hvars⟩ := after_vars options h.known own
  · rw [hdeclarations, hvars, Env.vars_find?_declareVariable, List.find?_append, h.find?]
    by_cases hx : v.name = x <;> simp [hx]
  · rw [hdeclarations, hvars, h.find?]

/-- **The table holds the first declarations.** -/
theorem Run.tabulated (h : Run options start s) : s.Tabulated := by
  induction h with
  | refl => exact ⟨fun x => rfl⟩
  | request _ q own ih => exact ih.after own

/-- **Declared once, found as declared.** Where names must not be declared twice, the table finds every declaration. -/
theorem Run.vars_find?_of_reject (hreject : options.rejectRedeclaration = true) (h : Run options start s) :
    ∀ v ∈ s.declarations, s.env.vars.find? v.name = some v := by
  induction h with
  | refl => nofun
  | @request t run q own ih =>
    intro v hv
    obtain ⟨w, hdeclarations, hvars, hnew⟩ | ⟨hdeclarations, hvars⟩ := after_vars options run.tabulated.known own
    · rw [hdeclarations] at hv
      rw [hvars, Env.vars_find?_declareVariable]
      obtain hv | hv := List.mem_append.1 hv
      · rw [ih v hv, Option.some_or]
      · obtain rfl := List.mem_singleton.1 hv
        -- the name was not in the table before
        have hnone : t.env.vars.find? v.name = none := by
          refine Option.eq_none_iff_forall_ne_some.2 fun w hw => ?_
          have hvar : t.env.hasVariable v.name = true :=
            Env.hasVariable_iff.2 ⟨w.ty, congrArg (Option.map Variable.ty) hw⟩
          rw [hnew hreject] at hvar
          cases hvar
        rw [hnone, Option.none_or, if_pos rfl]
    · rw [hdeclarations] at hv
      rw [hvars]
      exact ih v hv

/-! ### Parameters -/

variable {g : Function} {v : Variable}

/-- The parameters of a function are among the declarations. -/
theorem Registers.mem_declarations (h : s.Registers g) (hv : v ∈ g.params) : v ∈ s.declarations := by
  obtain ⟨ps, hps, hconstructs⟩ := h.params
  have hmem : Construct.declare v ∈ ps.map Node.construct := by
    rw [hconstructs]
    exact List.mem_map_of_mem hv
  obtain ⟨p, hp, heq⟩ := List.mem_map.1 hmem
  exact Session.mem_declarations.2 ⟨p, hps p hp, Node.declared?_eq_some.2 heq⟩

theorem Run.param_mem_declarations (h : Run options start s) (hg : g ∈ s.env.funs.toList) (hv : v ∈ g.params) :
    v ∈ s.declarations := by
  induction h with
  | refl => exact absurd hg List.not_mem_nil
  | @request t run q own ih =>
    -- a declaration that was given out stays at hand
    have hkept : ∀ w ∈ t.declarations, w ∈ (t.after options q).declarations := by
      intro w hw
      obtain ⟨n, hn, hdeclared⟩ := mem_declarations.1 hw
      exact mem_declarations.2 ⟨n, (Run.request .refl q own).mem_nodes hn, hdeclared⟩
    obtain hfuns | ⟨g', hregisters, hfuns⟩ := after_funs options own
    · rw [hfuns] at hg
      exact hkept v (ih hg)
    · rw [hfuns] at hg
      obtain hg | hg := List.mem_append.1 hg
      · exact hkept v (ih hg)
      · obtain rfl := List.mem_singleton.1 hg
        exact hkept v (hregisters.mem_declarations hv)

/-- Where names must not be declared twice, a parameter has the type that the table gives its name. -/
theorem Run.variableTy?_param_of_reject (hreject : options.rejectRedeclaration = true) (h : Run options start s)
    (hg : g ∈ s.env.funs.toList) (hv : v ∈ g.params) : s.env.variableTy? v.name = some v.ty :=
  congrArg (Option.map Variable.ty) (h.vars_find?_of_reject hreject v (h.param_mem_declarations hg hv))

end Session

end ImpC
