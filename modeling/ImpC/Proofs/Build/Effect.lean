import ImpC.Proofs.Build.Strict

/-!
# What a request changes

`Request.Effect` tells how the environment after a request follows from the one before it and from the answer. A request that
is refused changes nothing. One that succeeds changes its own table at most: a declaration adds its variable behind the others
if the name is new, the definition of a function adds one function, and no other request adds anything.

For a definition this cannot be seen from the definition itself. Its parameters are declared one by one, and it may still be
refused afterwards, for a parameter that is no declaration or for a last statement that has no value; what was declared by
then stays declared. A definition changes nothing in these cases because every declaration that it can be given was given out
by the same builder, which has it in its table (`Session.Tabulated.known`). So the step (`Build.build_of_error`,
`Build.build_of_function`) asks for parameters whose names are known, and the run provides them
(`Session.Run.request_effect`).
-/

namespace ImpC

namespace Request

/-- The request is one for a declaration or for the definition of a function. -/
def isDeclaration : Request → Bool
  | construct c => c.isDeclaration
  | binary .. => false

/-- How a request with the given answer takes the environment `env` to `env'`. -/
structure Effect (q : Request) (env : Env) (answer : Except BuildError Node) (env' : Env) : Prop where
  /-- A request that is refused changes nothing. -/
  refused : ∀ e, answer = .error e → env' = env
  /-- A declaration adds its variable if the name is new, and no function. -/
  declared : ∀ v n, q = construct (.declare v) → answer = .ok n →
    env'.vars.toList = env.vars.toList ++ (if v.name ∈ env.vars.toList.map (·.name) then [] else [v]) ∧
      env'.funs = env.funs
  /-- A definition adds one function, which is made of the parts that were handed over, and no variable. -/
  defined : ∀ f ps b r n, q = construct (.function f ps b r) → answer = .ok n →
    env'.vars = env.vars ∧
      ∃ g : Function, env'.funs.toList = env.funs.toList ++ [g] ∧ g.name = f ∧
        ps.map Node.construct = g.params.map Construct.declare ∧ g.body = b ∧
        Build.resultStatement r = .ok g.result ∧ g.returnTy = g.result.ty.getD .int
  /-- Any other request changes nothing. -/
  other : q.isDeclaration = false → env' = env

end Request

/-! ### One step -/

namespace Env

/-- A name is declared if it stands in the table. -/
theorem hasVariable_iff_mem {env : Env} {x : String} : env.hasVariable x = true ↔ x ∈ env.vars.toList.map (·.name) := by
  unfold hasVariable
  rw [Registry.contains_eq, List.any_eq_true, List.mem_map]
  exact exists_congr fun v => and_congr_right fun _ => beq_iff_eq

/-- A declaration adds its variable to the table if the name is new. -/
theorem vars_declareVariable_eq_append (env : Env) (v : Variable) :
    (env.declareVariable v).2.vars.toList =
      env.vars.toList ++ (if v.name ∈ env.vars.toList.map (·.name) then [] else [v]) := by
  rw [vars_declareVariable]
  by_cases hv : env.hasVariable v.name = true
  · rw [if_pos hv, if_pos (hasVariable_iff_mem.1 hv), List.append_nil]
  · rw [if_neg hv, if_neg (mt hasVariable_iff_mem.2 hv)]

end Env

namespace Build

variable {options : BuildOptions} {env env' : Env} {c : Construct Node} {n : Node} {e : BuildError}

/-- The names that are declared in these trees are known in the environment. -/
def Known (env : Env) (ns : List Node) : Prop := ∀ n ∈ ns, ∀ v, n.declared? = some v → env.hasVariable v.name = true

/-- Parameters whose names are known leave the environment as it is, whether they pass or not. -/
theorem declareParams_of_eq {f : String} {ps : List Node} {vars : Except BuildError (List Variable)} (h : Known env ps)
    (hparams : declareParams f env ps = (vars, env')) : env' = env := by
  have hsame := declareParams_of_known (f := f) h
  rw [hparams] at hsame
  exact hsame

/-- A definition that is refused has declared nothing that was not known. -/
theorem define_of_error {f : String} {ps : List Node} {b r : Node} (h : Known env ps)
    (hdefine : define env f ps b r = (.error e, env')) : env' = env := by
  unfold define at hdefine
  split at hdefine
  -- a parameter is no declaration
  · next hparams =>
    cases hdefine
    exact declareParams_of_eq h hparams
  · next hparams =>
    split at hdefine
    -- the parameters have passed, and the last statement has no value
    · cases hdefine
      exact declareParams_of_eq h hparams
    · cases hdefine

/-- **A step that is refused changes nothing.** -/
theorem build_of_error (h : Known env c.parts) (hbuild : build options env c = (.error e, env')) : env' = env := by
  unfold build at hbuild
  split at hbuild
  · cases hbuild
    rfl
  · split at hbuild
    · cases hbuild
    · exact define_of_error (fun p hp => h p (List.mem_append_left _ hp)) hbuild
    · cases hbuild

/-- **A definition that succeeds registers one function**, and does nothing else. -/
theorem build_of_function {f : String} {ps : List Node} {b r : Node} (h : Known env ps)
    (hbuild : build options env (.function f ps b r) = (.ok n, env')) :
    ∃ vars r', ps.map Node.construct = vars.map Construct.declare ∧ resultStatement r = .ok r' ∧
      env' = env.registerFunction ⟨f, vars, r'.ty.getD .int, b, r'⟩ := by
  cases builds_of_build hbuild with
  | @define _ _ _ _ r' vars env₁ passes params result =>
    obtain rfl := declareParams_of_eq h params
    exact ⟨vars, r', declareParams_eq_ok params, result, rfl⟩
  | typed plain => cases plain

/-- A step for a construct that declares nothing changes nothing. -/
theorem build_of_not_isDeclaration (hc : c.isDeclaration = false) : (build options env c).2 = env := by
  unfold build
  split
  · rfl
  · split
    · cases hc
    · cases hc
    · rfl

end Build

/-- **The effect of a request** whose parts declare only names that are known. -/
theorem Request.effect_of_answer {options : BuildOptions} {env env' : Env} {q : Request} {answer : Except BuildError Node}
    (h : Build.Known env q.parts) (hanswer : q.answer options env = (answer, env')) : q.Effect env answer env' := by
  refine ⟨?_, ?_, ?_, ?_⟩
  · rintro e rfl
    cases q with
    | construct c => exact Build.build_of_error h hanswer
    | binary token l r =>
      rw [answer_binary] at hanswer
      split at hanswer
      · next op _ => exact Build.build_of_error (c := .binary op l r) h hanswer
      -- the operator is not known, and nothing was built
      · cases hanswer
        rfl
  · rintro v n rfl rfl
    cases Build.builds_of_build hanswer with
    | declare => exact ⟨env.vars_declareVariable_eq_append v, env.funs_declareVariable v⟩
    | typed plain => cases plain
  · rintro f ps b r n rfl rfl
    have hparams : Build.Known env ps := fun p hp => h p (List.mem_append_left _ hp)
    obtain ⟨vars, r', hps, hr, rfl⟩ := Build.build_of_function hparams hanswer
    exact ⟨rfl, _, env.funs_registerFunction _, rfl, hps, rfl, hr, rfl⟩
  · intro hq
    obtain rfl : (q.answer options env).2 = env' := congrArg Prod.snd hanswer
    cases q with
    | construct c => exact Build.build_of_not_isDeclaration hq
    | binary token l r =>
      rw [answer_binary]
      split
      · exact Build.build_of_not_isDeclaration rfl
      · rfl

/-! ### Requests of a run -/

namespace Session

variable {options : BuildOptions} {s : Session} {q : Request}

/-- In a run, the trees that were given out declare names that are in the table. -/
theorem Run.known (h : Run options start s) (own : ∀ n ∈ q.parts, n ∈ s.nodes) : Build.Known s.env q.parts := by
  intro n hn v hv
  exact h.tabulated.known v (mem_declarations.2 ⟨n, own n hn, hv⟩)

/-- **A request that fails changes nothing, and one that succeeds changes its own table only.** At every moment of a run on a
builder with any options, and for every request that comes next: if it is refused, the environment is as it was before. If it
succeeds, a declaration adds its variable to the table of variables, unless the name is in there, the definition of a function
adds one function to the table of functions, and nothing else is changed. -/
theorem Run.request_effect (h : Run options start s) (q : Request) (own : ∀ n ∈ q.parts, n ∈ s.nodes) :
    q.Effect s.env (q.answer options s.env).1 (s.after options q).env :=
  Request.effect_of_answer (h.known own) rfl

/-- The definition of a function with a declaration and a number for its parameters. -/
def misdefining : Request :=
  .construct (.function "f" [⟨.declare ⟨"x", .int⟩, none⟩, ⟨.int 0, some .int⟩] ⟨.block [], none⟩ ⟨.int 0, some .int⟩)

/-- A definition is refused for its second parameter, and the environment stays as it was. With the first parameter alone it
succeeds, and adds the function. -/
theorem Run.request_effect_misdefining :
    Run { rejectRedeclaration := true } start prepared ∧
      (misdefining.answer { rejectRedeclaration := true } prepared.env).1 = .error (.invalidParameter "f") ∧
      (prepared.after { rejectRedeclaration := true } misdefining).env = prepared.env ∧
      ∃ g, ((sharing "f").answer { rejectRedeclaration := true } prepared.env).1.isOk = true ∧
        (prepared.after { rejectRedeclaration := true } (sharing "f")).env.funs.toList = prepared.env.funs.toList ++ [g] ∧
        g.name = "f" := by
  have hprepared : Run { rejectRedeclaration := true } start prepared := by
    refine .request (.request (.request .refl _ ?_) _ ?_) _ ?_ <;> nofun
  have hown : ∀ n ∈ misdefining.parts, n ∈ prepared.nodes := by
    intro n hn
    have hnodes : prepared.nodes = [⟨.declare ⟨"x", .int⟩, none⟩, ⟨.block [], none⟩, ⟨.int 0, some .int⟩] := rfl
    have hparts : misdefining.parts = [⟨.declare ⟨"x", .int⟩, none⟩, ⟨.int 0, some .int⟩] ++ prepared.nodes.tail := rfl
    rw [hparts, hnodes] at hn
    rw [hnodes]
    simpa [or_assoc, or_comm, or_left_comm] using hn
  have hrefused : (misdefining.answer { rejectRedeclaration := true } prepared.env).1 = .error (.invalidParameter "f") := by
    rfl
  obtain ⟨n, hn⟩ : ∃ n, ((sharing "f").answer { rejectRedeclaration := true } prepared.env).1 = .ok n := ⟨_, rfl⟩
  obtain ⟨-, g, hfuns, hname, -⟩ :=
    (request_effect hprepared (sharing "f") fun n hn => hn).defined _ _ _ _ n rfl hn
  refine ⟨hprepared, hrefused, (request_effect hprepared misdefining hown).refused _ hrefused, g, ?_, hfuns, hname⟩
  rw [hn]
  rfl

end Session

end ImpC
