import ImpC.Proofs.Build.Declared
import ImpC.Proofs.Emit.Relation
import ImpC.Proofs.Registry

/-!
# Where names must not be declared twice

With `rejectRedeclaration` a builder refuses a variable or a function whose name is known. The check for variables stands at
declarations only. Definitions of functions declare their parameters without it, and one tree that declares a variable may be
a parameter of many functions. Still nothing is declared twice, and no tree disagrees with the table: what a definition
declares was given out before, by a request that passed the check, so it is in the table as it is in the tree.

`Session.Unrepeated` is what every request preserves: the table of variables is the list of all declarations that were given
out, and neither table has a name twice. The list is what the log of the requests says, too
(`Session.Run.declareCalls_eq`): the variables of the requests for a declaration that were not refused.
-/

namespace ImpC

/-- The variable that a request is to declare. -/
def Request.declares? : Request → Option Variable
  | construct (.declare v) => some v
  | _ => none

/-- A tree that declares a variable comes out of a request for its declaration, and out of no other. -/
theorem Request.declared?_of_answer {options : BuildOptions} {env env' : Env} {q : Request} {n : Node}
    (h : q.answer options env = (.ok n, env')) : n.declared? = q.declares? := by
  cases q with
  | binary token l r =>
    rw [answer_binary] at h
    split at h
    · cases Build.builds_of_build h with
      | typed plain passes => rfl
    · cases h
  | construct c =>
    rw [answer_construct] at h
    cases Build.builds_of_build h with
    | declare passes => rfl
    | define passes params result => rfl
    | typed plain passes =>
      cases c with
      | declare | function => cases plain
      | _ => rfl

namespace Session

variable {options : BuildOptions} {s t : Session} {q : Request}

/-- The variables of the requests for a declaration that succeeded, in the order of the requests. -/
def declareCalls (s : Session) : List Variable := s.log.filterMap fun (q, a) => a.toOption.bind fun _ => q.declares?

/-- **The declarations that were given out are those that the log tells.** -/
theorem Run.declareCalls_eq (h : Run options start s) : s.declareCalls = s.declarations := by
  induction h with
  | refl => rfl
  | @request t run q own ih =>
    unfold declareCalls declarations at ih ⊢
    rw [nodes_after, List.filterMap_append, ← ih, after, List.filterMap_append]
    -- the last entry of the log against the tree that it added, if it added one
    congr 1
    cases hanswer : q.answer options t.env with
    | mk a env' =>
      cases a with
      | error e => rfl
      | ok n =>
        have hn : n.declared? = q.declares? := Request.declared?_of_answer hanswer
        simp [Except.toOption, List.filterMap_cons, hn]

/-! ### One request, and a whole run -/

/-- The variables are those that were declared, and no name stands twice in a table. -/
structure Unrepeated (s : Session) : Prop where
  vars : s.env.vars.toList = s.declarations
  varNames : (s.env.vars.toList.map (·.name)).Nodup
  funNames : (s.env.funs.toList.map (·.name)).Nodup

/-- A function that is registered is new where names must not be declared twice. -/
theorem after_funs_of_reject (hreject : options.rejectRedeclaration = true) (s : Session) (q : Request) :
    (s.after options q).env.funs = s.env.funs ∨
      ∃ g, s.env.hasFunction g.name = false ∧ (s.after options q).env.funs.toList = s.env.funs.toList ++ [g] := by
  obtain ⟨-, hfuns⟩ | ⟨c, n, -, hbuilds, -⟩ := after_cases options s q
  · exact .inl hfuns
  · generalize (s.after options q).env = env' at hbuilds ⊢
    cases hbuilds with
    | declare passes => exact .inl (s.env.funs_declareVariable _)
    | typed plain passes => exact .inl rfl
    | @define f ps b r r' vars env' passes params result =>
      refine .inr ⟨⟨f, vars, r'.ty.getD .int, b, r'⟩, ?_, ?_⟩
      -- a definition that passes its checks has not been refused for its name
      · simp only [Build.staticTy, hreject, Bool.true_and] at passes
        split at passes
        · cases passes
        · next hnot => exact Bool.eq_false_iff.2 hnot
      · rw [Env.funs_registerFunction, Build.funs_of_declareParams params]

/-- **One request.** -/
theorem Unrepeated.after (h : s.Unrepeated) (hreject : options.rejectRedeclaration = true)
    (known : ∀ v ∈ s.declarations, s.env.hasVariable v.name = true) (own : ∀ n ∈ q.parts, n ∈ s.nodes) :
    (s.after options q).Unrepeated := by
  have hvars : (s.after options q).env.vars.toList = (s.after options q).declarations ∧
      ((s.after options q).env.vars.toList.map (·.name)).Nodup := by
    -- parameters are known, so a definition is among the requests that change nothing here
    obtain ⟨v, hdeclarations, hvars, hnew⟩ | ⟨hdeclarations, hvars⟩ := after_vars options known own
    · have hv : s.env.hasVariable v.name = false := hnew hreject
      rw [hdeclarations, hvars, Env.vars_declareVariable, if_neg (Bool.eq_false_iff.1 hv), h.vars]
      refine ⟨rfl, Registry.nodup_concat (h.vars ▸ h.varNames) ?_⟩
      rw [← h.vars, ← Registry.contains_eq]
      exact hv
    · rw [hdeclarations, hvars]
      exact ⟨h.vars, h.varNames⟩
  refine ⟨hvars.1, hvars.2, ?_⟩
  obtain hfuns | ⟨g, hg, hfuns⟩ := after_funs_of_reject hreject s q
  · rw [hfuns]
    exact h.funNames
  · rw [hfuns]
    refine Registry.nodup_concat h.funNames ?_
    rw [← Registry.contains_eq]
    exact hg

/-- **A whole run.** -/
theorem Run.unrepeated (hreject : options.rejectRedeclaration = true) (h : Run options start s) : s.Unrepeated := by
  induction h with
  | refl => exact ⟨rfl, List.nodup_nil, List.nodup_nil⟩
  | request run q own ih => exact ih.after hreject run.tabulated.known own

/-- The definition of a function adds no variable, whether it succeeds or not. -/
theorem Run.vars_function (h : Run options start s) {f : String} {ps : List Node} {b r : Node}
    (own : ∀ p ∈ ps, p ∈ s.nodes) :
    (s.after options (.construct (.function f ps b r))).env.vars = s.env.vars := by
  have hknown : ∀ p ∈ ps, ∀ v, p.declared? = some v → s.env.hasVariable v.name = true :=
    fun p hp v hv => h.tabulated.known v (mem_declarations.2 ⟨p, own p hp, hv⟩)
  show (Build.build options s.env (.function f ps b r)).2.vars = _
  unfold Build.build
  split
  · rfl
  · exact Build.vars_define b r hknown

/-- **Where names must not be declared twice, nothing is repeated and nothing disagrees.** After any requests, some of which
may have been refused, the table of variables holds what was declared by the requests for declarations that succeeded, in
their order, and no name twice. No two functions have a name in common, so all of them are emitted. Every declaration that
was given out, and every parameter of a function, has the type that the table has for its name. The definition of a function
adds no variable. -/
theorem Run.strict_tables (hreject : options.rejectRedeclaration = true) (h : Run options start s) :
    s.env.vars.toList = s.declareCalls ∧ (s.env.vars.toList.map (·.name)).Nodup ∧
    (s.env.funs.toList.map (·.name)).Nodup ∧
    (∀ o root p, Emit.program o s.env root = .ok p →
      Emit.functions o s.env.variableTy? s.env.funs.toList = .ok p.functions) ∧
    (∀ n ∈ s.nodes, ∀ v, n.construct = .declare v → s.env.variableTy? v.name = some v.ty) ∧
    (∀ g ∈ s.env.funs.toList, ∀ v ∈ g.params, s.env.variableTy? v.name = some v.ty) ∧
    ∀ f ps b r, (∀ p ∈ ps, p ∈ s.nodes) →
      (s.after options (.construct (.function f ps b r))).env.vars = s.env.vars := by
  have hunrepeated := h.unrepeated hreject
  refine ⟨?_, hunrepeated.varNames, hunrepeated.funNames, ?_, ?_, ?_, ?_⟩
  · rw [hunrepeated.vars, h.declareCalls_eq]
  · intro o root p hp
    obtain ⟨cs, main, hcs, -, rfl⟩ := Emit.program_eq_ok hp
    have hfirsts : s.env.funs.firsts = s.env.funs.toList :=
      Registry.firstsAfter_eq_self hunrepeated.funNames fun g _ => List.not_mem_nil
    rwa [hfirsts] at hcs
  · intro n hn v hv
    have hmem : v ∈ s.declarations := mem_declarations.2 ⟨n, hn, Node.declared?_eq_some.2 hv⟩
    exact congrArg (Option.map Variable.ty) (h.vars_find?_of_reject hreject v hmem)
  · exact fun g hg v hv => h.variableTy?_param_of_reject hreject hg hv
  · exact fun f ps b r own => h.vars_function own

/-- A builder with a declaration, an empty block and a number. -/
def prepared : Session :=
  [.construct (.declare ⟨"x", .int⟩), .construct (.block []), .construct (.int 0)].foldl
    (after { rejectRedeclaration := true }) start

/-- The definition of a function with the variable as its parameter. -/
def sharing (f : String) : Request :=
  .construct (.function f [⟨.declare ⟨"x", .int⟩, none⟩] ⟨.block [], none⟩ ⟨.int 0, some .int⟩)

/-- Two functions share one tree as their parameter. Then the variable is declared as a text and a function is defined once
more, and both requests are refused. -/
theorem Run.strict_tables_sharing :
    ∃ s, Run { rejectRedeclaration := true } start s ∧
      s = [sharing "f", sharing "g", .construct (.declare ⟨"x", .text⟩), sharing "f"].foldl
        (after { rejectRedeclaration := true }) prepared ∧
      s.log.map (·.2.isOk) = [true, true, true, true, true, false, false] ∧
      s.env.vars.toList = [⟨"x", .int⟩] ∧ s.env.funs.toList.map (·.name) = ["f", "g"] ∧
      ∀ g ∈ s.env.funs.toList, ∀ v ∈ g.params, s.env.variableTy? v.name = some v.ty := by
  have hprepared : Run { rejectRedeclaration := true } start prepared := by
    refine .request (.request (.request .refl _ ?_) _ ?_) _ ?_ <;> nofun
  have hown : ∀ f, ∀ n ∈ (sharing f).parts, n ∈ prepared.nodes := fun f n hn => hn
  -- trees that were given out stay at hand while the next requests are made
  have hf : Run { rejectRedeclaration := true } prepared _ := Run.refl.request (sharing "f") (hown "f")
  have hg := hf.request (sharing "g") fun n hn => hf.mem_nodes (hown "g" n hn)
  have hx := hg.request (.construct (.declare ⟨"x", .text⟩)) nofun
  have hs := hx.request (sharing "f") fun n hn => hx.mem_nodes (hown "f" n hn)
  obtain ⟨hvars, -, -, -, -, hparams, -⟩ := strict_tables rfl (hprepared.trans hs)
  refine ⟨_, hprepared.trans hs, rfl, ?_, ?_, ?_, hparams⟩
  · decide +kernel
  · rw [hvars]
    decide +kernel
  · decide +kernel

end Session

end ImpC
