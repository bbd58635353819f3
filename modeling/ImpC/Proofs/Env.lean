import ImpC.Env

/-!
# Environments only grow

Nothing that was declared is ever taken back or changed: both tables of an environment are only ever added to at their
end. `Env.Extends` says that one environment is what became of another in this way. Since a name is found at its first
entry, whatever a look-up finds it finds in every later environment too (`Env.Extends.variableTy?`,
`Env.Extends.function?`). This is what keeps a type right that was found long before the program was complete.
-/

namespace ImpC.Env

/-- The tables of the first environment are initial parts of the tables of the second. -/
structure Extends (env env' : Env) : Prop where
  vars : env.vars.toList <+: env'.vars.toList
  funs : env.funs.toList <+: env'.funs.toList

variable {env env' env'' : Env}

namespace Extends

theorem refl (env : Env) : env.Extends env := ⟨List.prefix_rfl, List.prefix_rfl⟩

theorem trans (h : env.Extends env') (h' : env'.Extends env'') : env.Extends env'' :=
  ⟨h.vars.trans h'.vars, h.funs.trans h'.funs⟩

/-- A variable keeps its type. -/
theorem variableTy? (h : env.Extends env') {x : String} {ty : Ty} (hx : env.variableTy? x = some ty) :
    env'.variableTy? x = some ty := by
  unfold Env.variableTy? at hx ⊢
  -- a search that ends in the initial part of a table ends there in the whole table
  rw [Registry.find?_eq] at hx ⊢
  obtain ⟨v, hv, rfl⟩ := Option.map_eq_some_iff.1 hx
  rw [h.vars.find?_eq_some hv]
  rfl

/-- Calls keep their meaning. -/
theorem function? (h : env.Extends env') {f : String} {g : Function} (hf : env.function? f = some g) :
    env'.function? f = some g := by
  unfold Env.function? at hf ⊢
  rw [Registry.find?_eq] at hf ⊢
  exact h.funs.find?_eq_some hf

end Extends

/-! ### Declaring a variable -/

theorem extends_declareVariable (env : Env) (v : Variable) : env.Extends (env.declareVariable v).2 := by
  refine ⟨?_, ?_⟩
  · rw [vars_declareVariable]
    split
    · exact List.prefix_rfl
    · exact List.prefix_append _ _
  · exact (funs_declareVariable env v).symm ▸ List.prefix_rfl

theorem hasVariable_iff {x : String} : env.hasVariable x = true ↔ ∃ ty, env.variableTy? x = some ty := by
  unfold hasVariable Env.variableTy?
  rw [Registry.contains_eq, Registry.find?_eq]
  constructor
  · intro h
    obtain ⟨v, hv⟩ := Option.isSome_iff_exists.1 (List.find?_isSome.2 (List.any_eq_true.1 h))
    exact ⟨v.ty, by rw [hv]; rfl⟩
  · rintro ⟨ty, h⟩
    obtain ⟨v, hv, -⟩ := Option.map_eq_some_iff.1 h
    exact List.any_eq_true.2 (List.find?_isSome.1 (by rw [hv]; rfl))

/-- After its declaration a variable has a type: the one it is declared with, or the one it had before. -/
theorem variableTy?_declareVariable (env : Env) (v : Variable) :
    (env.declareVariable v).2.variableTy? v.name = some ((env.variableTy? v.name).getD v.ty) := by
  by_cases h : env.hasVariable v.name = true
  -- the first declaration counts, and it is found in the table as it was
  · obtain ⟨ty, hty⟩ := hasVariable_iff.1 h
    rw [(extends_declareVariable env v).variableTy? hty, hty]
    rfl
  -- nothing is found in the old part of the table, so the search arrives at the new entry
  · have hnone : env.variableTy? v.name = none := by
      refine Option.eq_none_iff_forall_ne_some.2 fun ty hty => ?_
      exact h (hasVariable_iff.2 ⟨ty, hty⟩)
    have hfind : env.vars.toList.find? (fun w => w.name == v.name) = none := by
      unfold Env.variableTy? at hnone
      rw [Registry.find?_eq] at hnone
      exact Option.map_eq_none_iff.1 hnone
    rw [hnone]
    unfold Env.variableTy?
    rw [Registry.find?_eq, vars_declareVariable, if_neg h, List.find?_append, hfind]
    simp

/-! ### Registering a function -/

theorem extends_registerFunction (env : Env) (f : Function) : env.Extends (env.registerFunction f) := by
  refine ⟨?_, ?_⟩
  · exact (vars_registerFunction env f).symm ▸ List.prefix_rfl
  · rw [funs_registerFunction]
    exact List.prefix_append _ _

/-- A look-up finds a function of the name it looks for, from the table. -/
theorem mem_of_function? {f : String} {g : Function} (h : env.function? f = some g) :
    g ∈ env.funs.toList ∧ g.name = f := by
  unfold Env.function? at h
  rw [Registry.find?_eq] at h
  refine ⟨List.mem_of_find?_eq_some h, ?_⟩
  simpa using List.find?_some h

/-- A name is found once a function of it is registered. -/
theorem exists_function?_registerFunction (env : Env) (g : Function) :
    ∃ g', (env.registerFunction g).function? g.name = some g' := by
  unfold Env.function?
  rw [Registry.find?_eq, funs_registerFunction]
  refine Option.isSome_iff_exists.1 (List.find?_isSome.2 ⟨g, ?_, beq_self_eq_true _⟩)
  exact List.mem_append_right _ (List.mem_singleton.2 rfl)

end ImpC.Env
