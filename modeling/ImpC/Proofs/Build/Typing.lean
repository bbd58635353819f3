import ImpC.Proofs.Build.Client

/-!
# Whatever is built is well typed, and stays so

`Node.Rule` gives the typing rules of the language, one for each construct: which types the parts of a node have to have
in an environment, and which type the node then has. A tree is well typed (`Node.WellTyped`) if every node in it, at
every depth, follows the rule of its construct.

A builder finds the type of a node once, when it builds it, and never looks at it again, while the environment goes on
growing: variables are declared again with other types, functions are defined again with other parameters. The first
entry of a name is the one that counts, so a rule that holds in an environment holds in every extension of it
(`Node.Rule.mono`). The invariant `Session.Sound` rests on that: at every moment of a run all trees that were given out,
and all functions that were registered, are well typed in the environment of that moment. `Session.Sound.after` is its
preservation by one request, whether the request succeeds or fails.

With calls that are not validated a call may have any arguments and an unknown function, so the rule of a call asks for
its signature only if `calls` is set. The rest of the invariant holds of every builder.
-/

namespace ImpC

/-- The node follows the typing rule of its construct in the environment. With `calls`, the rule of a call asks for the
parameters and the type of the function that is called. -/
inductive Node.Rule (calls : Bool) (env : Env) : Node → Prop where
  /-- An integer literal is an integer. -/
  | int (v : Int64) : Rule calls env ⟨.int v, some .int⟩
  /-- A float literal is a float. -/
  | float (v : Binary64) : Rule calls env ⟨.float v, some .float⟩
  /-- A text literal is a text. -/
  | text (v : String) : Rule calls env ⟨.text v, some .text⟩
  /-- A variable has the type the table gives its name. -/
  | var {x : String} {ty : Ty} (hx : env.variableTy? x = some ty) : Rule calls env ⟨.var x, some ty⟩
  /-- An operation has the type its operator gives to the types of the operands. -/
  | binary {op : BinOp} {l r : Node} {left right ty : Ty} (hl : l.HasValue left) (hr : r.HasValue right)
      (hop : op.resultTy? left right = some ty) : Rule calls env ⟨.binary op l r, some ty⟩
  /-- An assignment has the type of its variable, which is the type of the value. -/
  | assign {x : String} {v : Node} {ty : Ty} (hx : env.variableTy? x = some ty) (hv : v.HasValue ty) :
      Rule calls env ⟨.assign x v, some ty⟩
  /-- A call has the type of its function, and one argument of the right type for each parameter. -/
  | call {f : String} {args : List Node} {ty : Ty} (hargs : ∀ a ∈ args, ∃ t, a.HasValue t)
      (hf : calls = true → ∃ g, env.function? f = some g ∧ args.length = g.params.length ∧
        args.map Node.ty = g.params.map (some ·.ty) ∧ ty = g.returnTy) : Rule calls env ⟨.call f args, some ty⟩
  /-- A print statement mirrors the type of its value. -/
  | print {v : Node} {ty : Ty} (hv : v.HasValue ty) : Rule calls env ⟨.print v, some ty⟩
  /-- A read statement names a variable of the table. -/
  | read {x : String} {ty : Ty} (hx : env.variableTy? x = some ty) : Rule calls env ⟨.read x, none⟩
  /-- A declared variable is in the table. -/
  | declare {v : Variable} {ty : Ty} (hv : env.variableTy? v.name = some ty) : Rule calls env ⟨.declare v, none⟩
  /-- The condition of a branch has a value. -/
  | branch {c a : Node} {b : Option Node} {ty : Ty} (hc : c.HasValue ty) : Rule calls env ⟨.branch c a b, none⟩
  /-- The condition of a loop has a value. -/
  | loop {c b : Node} {ty : Ty} (hc : c.HasValue ty) : Rule calls env ⟨.loop c b, none⟩
  /-- The first step, the condition and the later step of a counting loop have values. -/
  | count {i c u b : Node} {first test later : Ty} (hi : i.HasValue first) (hc : c.HasValue test)
      (hu : u.HasValue later) : Rule calls env ⟨.count i c u b, none⟩
  /-- A block has no type. -/
  | block (ss : List Node) : Rule calls env ⟨.block ss, none⟩
  /-- A defined function is in the table; its parameters are declarations and its last statement returns a value. -/
  | function {f : String} {ps : List Node} {b r : Node} {vars : List Variable} {g : Function} {ty : Ty}
      (hps : ps.map Node.construct = vars.map Construct.declare) (hr : r.construct.isReturn = true)
      (hty : r.ty = some ty) (hf : env.function? f = some g) : Rule calls env ⟨.function f ps b r, none⟩
  /-- A return statement mirrors the type of its value. -/
  | ret {v : Node} {ty : Ty} (hv : v.HasValue ty) : Rule calls env ⟨.ret v, some ty⟩

/-- Every node of the tree follows its typing rule, calls included. -/
def Node.WellTyped (env : Env) (n : Node) : Prop := n.Everywhere (Rule true env)

/-- A registered function is made of trees that follow the rules, and returns what its last statement returns. -/
structure Function.Sound (calls : Bool) (env : Env) (g : Function) : Prop where
  body : g.body.Everywhere (Node.Rule calls env)
  result : g.result.Everywhere (Node.Rule calls env)
  isReturn : g.result.construct.isReturn = true
  ty_eq : g.result.ty = some g.returnTy

/-- All trees that were given out and all functions that were registered follow the rules. -/
structure Session.Sound (calls : Bool) (s : Session) : Prop where
  nodes : ∀ n ∈ s.nodes, n.Everywhere (Node.Rule calls s.env)
  functions : ∀ g ∈ s.env.funs.toList, g.Sound calls s.env

variable {calls : Bool} {options : BuildOptions} {env env' : Env} {n : Node}

/-! ### The rules in a growing environment -/

/-- **Rules are kept.** What follows its rule in an environment follows it in every extension. -/
theorem Node.Rule.mono (he : env.Extends env') (h : n.Rule calls env) : n.Rule calls env' := by
  cases h with
  | int v => exact .int v
  | float v => exact .float v
  | text v => exact .text v
  | var hx => exact .var (he.variableTy? hx)
  | binary hl hr hop => exact .binary hl hr hop
  | assign hx hv => exact .assign (he.variableTy? hx) hv
  | call hargs hf =>
    refine .call hargs fun hcalls => ?_
    obtain ⟨g, hg, hrest⟩ := hf hcalls
    exact ⟨g, he.function? hg, hrest⟩
  | print hv => exact .print hv
  | read hx => exact .read (he.variableTy? hx)
  | declare hv => exact .declare (he.variableTy? hv)
  | branch hc => exact .branch hc
  | loop hc => exact .loop hc
  | count hi hc hu => exact .count hi hc hu
  | block ss => exact .block ss
  | function hps hr hty hf => exact .function hps hr hty (he.function? hf)
  | ret hv => exact .ret hv

theorem Node.Everywhere.mono (he : env.Extends env') (h : n.Everywhere (Rule calls env)) :
    n.Everywhere (Rule calls env') :=
  h.imp fun _ => Rule.mono he

theorem Function.Sound.mono {g : Function} (he : env.Extends env') (h : g.Sound calls env) : g.Sound calls env' :=
  ⟨h.body.mono he, h.result.mono he, h.isReturn, h.ty_eq⟩

/-! ### The checks of the builder establish the rules -/

namespace Build

/-- The arguments of a call that passes. -/
theorem rule_call {f : String} {args : List Node} {ty : Option Ty}
    (h : staticTy options env (.call f args) = .ok ty) : Node.Rule options.validateCalls env ⟨.call f args, ty⟩ := by
  simp only [staticTy] at h
  obtain ⟨tys, hargs, h⟩ := bind_eq_ok_iff.1 h
  obtain ⟨t, hcall, h⟩ := bind_eq_ok_iff.1 h
  cases h
  obtain ⟨hvalues, htys⟩ := argumentTys_eq_ok hargs
  refine .call hvalues fun hcalls => ?_
  obtain ⟨g, hg, hparams, hty⟩ := callTy_eq_ok hcalls hcall
  -- the types agree position by position, and with that the numbers do
  have hsame : args.map Node.ty = g.params.map (some ·.ty) := by
    rw [htys, ← hparams, List.map_map]
    rfl
  have hlen : args.length = g.params.length := by
    have := congrArg List.length hsame
    rwa [List.length_map, List.length_map] at this
  exact ⟨g, hg, hlen, hsame, hty.symm⟩

/-- **A check that passes is a rule that holds.** The constructs that declare something are not among these: their rules
speak of the environment they leave behind. -/
theorem rule_of_staticTy {c : Construct Node} {ty : Option Ty} (hc : c.isDeclaration = false)
    (h : staticTy options env c = .ok ty) : Node.Rule options.validateCalls env ⟨c, ty⟩ := by
  cases c with
  | int v =>
    cases h
    exact .int v
  | float v =>
    cases h
    exact .float v
  | text v =>
    cases h
    exact .text v
  | var x =>
    obtain ⟨t, hx, h⟩ := bind_eq_ok_iff.1 h
    cases h
    exact .var (variableTy_eq_ok.1 hx)
  | binary op l r =>
    obtain ⟨left, hl, h⟩ := bind_eq_ok_iff.1 h
    obtain ⟨right, hr, h⟩ := bind_eq_ok_iff.1 h
    split at h
    · next hop =>
      cases h
      exact .binary (operandTy_eq_ok.1 hl) (operandTy_eq_ok.1 hr) hop
    · cases h
  | assign x v =>
    obtain ⟨expected, hx, h⟩ := bind_eq_ok_iff.1 h
    obtain ⟨found, hv, h⟩ := bind_eq_ok_iff.1 h
    split at h
    · next heq =>
      cases h
      subst heq
      exact .assign (variableTy_eq_ok.1 hx) (operandTy_eq_ok.1 hv)
    · cases h
  | call f args => exact rule_call h
  | print v =>
    obtain ⟨t, hv, h⟩ := bind_eq_ok_iff.1 h
    cases h
    exact .print (operandTy_eq_ok.1 hv)
  | read x =>
    obtain ⟨t, hx, h⟩ := bind_eq_ok_iff.1 h
    cases h
    exact .read (variableTy_eq_ok.1 hx)
  | declare v => cases hc
  | branch c a b =>
    obtain ⟨t, hcond, h⟩ := bind_eq_ok_iff.1 h
    cases h
    exact .branch (operandTy_eq_ok.1 hcond)
  | loop c b =>
    obtain ⟨t, hcond, h⟩ := bind_eq_ok_iff.1 h
    cases h
    exact .loop (operandTy_eq_ok.1 hcond)
  | count i c u b =>
    obtain ⟨first, hi, h⟩ := bind_eq_ok_iff.1 h
    obtain ⟨test, hcond, h⟩ := bind_eq_ok_iff.1 h
    obtain ⟨later, hu, h⟩ := bind_eq_ok_iff.1 h
    cases h
    exact .count (operandTy_eq_ok.1 hi) (operandTy_eq_ok.1 hcond) (operandTy_eq_ok.1 hu)
  | block ss =>
    cases h
    exact .block ss
  | function f ps b r => cases hc
  | ret v =>
    obtain ⟨t, hv, h⟩ := bind_eq_ok_iff.1 h
    cases h
    exact .ret (operandTy_eq_ok.1 hv)

/-- The last statement of a function follows the rules if the tree it was made from does, and it returns a value. -/
theorem rule_of_resultStatement {r r' : Node} (hr : r.Everywhere (Node.Rule calls env))
    (h : resultStatement r = .ok r') :
    r'.Everywhere (Node.Rule calls env) ∧ r'.construct.isReturn = true ∧ ∃ ty, r'.ty = some ty := by
  obtain ⟨hreturn, rfl⟩ | ⟨ty, hvalue, rfl⟩ := resultStatement_eq_ok h
  · refine ⟨hr, hreturn, ?_⟩
    -- of all the rules only that of a return statement is about a node that returns
    cases hr.top <;> first | exact ⟨_, rfl⟩ | cases hreturn
  · refine ⟨Node.everywhere_iff.2 ⟨.ret hvalue, ?_⟩, rfl, ty, rfl⟩
    intro m hm
    obtain rfl := List.mem_singleton.1 hm
    exact hr

end Build

/-! ### One request, and a whole run -/

namespace Session

variable {s t : Session}

/-- A function that is made of trees following the rules follows them itself. -/
theorem Sound.function (hs : s.Sound calls) {g : Function} (hg : s.Registers g) : g.Sound calls s.env := by
  obtain ⟨r, hr, hresult⟩ := hg.result
  obtain ⟨hrule, hreturn, ty, hty⟩ := Build.rule_of_resultStatement (hs.nodes r hr) hresult
  refine ⟨hs.nodes _ hg.body, hrule, hreturn, ?_⟩
  rw [hg.returnTy, hty]
  rfl

/-- A tree that is built from trees following the rules follows them in the environment after it. -/
theorem Sound.builds (hs : s.Sound options.validateCalls) {c : Construct Node} (own : ∀ m ∈ c.parts, m ∈ s.nodes)
    (h : Build.Builds options s.env c n env') (he : s.env.Extends env') :
    n.Everywhere (Node.Rule options.validateCalls env') := by
  -- the parts followed the rules when they were given out, and the environment has only grown
  have hparts : ∀ m ∈ c.parts, m.Everywhere (Node.Rule options.validateCalls env') :=
    fun m hm => (hs.nodes m (own m hm)).mono he
  cases h with
  | declare passes =>
    -- the table need not give the variable the type it is declared with here
    exact Node.everywhere_iff.2 ⟨.declare (s.env.variableTy?_declareVariable _), hparts⟩
  | @define f ps b r r' vars env' passes params result =>
    obtain ⟨hr', hreturn, ty, hty⟩ :=
      Build.rule_of_resultStatement (hparts r (by simp [Construct.parts])) result
    obtain ⟨g, hg⟩ := env'.exists_function?_registerFunction ⟨f, vars, r'.ty.getD .int, b, r'⟩
    refine Node.everywhere_iff.2 ⟨.function (Build.declareParams_eq_ok params) hreturn hty hg, fun m hm => ?_⟩
    -- only the last statement may be another tree than the one handed over
    obtain hm | rfl : m ∈ ps ++ [b] ∨ m = r' := by simpa [Construct.parts, or_assoc] using hm
    · exact hparts m (by simpa [Construct.parts, or_assoc] using Or.inl hm)
    · exact hr'
  | typed plain passes => exact Node.everywhere_iff.2 ⟨Build.rule_of_staticTy plain passes, hparts⟩

/-- **One request keeps the invariant**, whether it succeeds or fails. -/
theorem Sound.after (hs : s.Sound options.validateCalls) {q : Request} (own : ∀ n ∈ q.parts, n ∈ s.nodes) :
    (s.after options q).Sound options.validateCalls := by
  have he := extends_after options s q
  constructor
  · intro n hn
    obtain ⟨hnodes, -⟩ | ⟨c, m, hparts, hbuilds, hnodes⟩ := after_cases options s q
    · rw [hnodes] at hn
      exact (hs.nodes n hn).mono he
    · rw [hnodes] at hn
      obtain hn | hn := List.mem_append.1 hn
      · exact (hs.nodes n hn).mono he
      -- the tree that this request has given out
      · rw [List.mem_singleton.1 hn]
        exact hs.builds (hparts ▸ own) hbuilds he
  · intro g hg
    obtain hfuns | ⟨g', hregisters, hfuns⟩ := after_funs options own
    · rw [hfuns] at hg
      exact (hs.functions g hg).mono he
    · rw [hfuns] at hg
      obtain hg | hg := List.mem_append.1 hg
      · exact (hs.functions g hg).mono he
      -- the function that this request has registered
      · rw [List.mem_singleton.1 hg]
        exact (hs.function hregisters).mono he

theorem Sound.start (calls : Bool) : start.Sound calls :=
  ⟨fun _ hn => absurd hn List.not_mem_nil, fun _ hg => absurd hg List.not_mem_nil⟩

/-- **The invariant of a run.** At every moment all that was given out and registered follows the rules. -/
theorem Run.sound (h : Run options start s) : s.Sound options.validateCalls := by
  induction h with
  | refl => exact .start _
  | request _ q own ih => exact ih.after own

/-- **Built trees are well typed, and stay so.** On a builder that validates calls, every tree that was given out up to
some moment of a run is well typed at every depth, in the environment of that moment and in the environment of every
later one; and so are the body and the last statement of every function registered up to that moment. -/
theorem Run.nodes_wellTyped (hv : options.validateCalls = true) (hs : Run options start s) (ht : Run options s t) :
    (∀ n ∈ s.nodes, n.WellTyped s.env ∧ n.WellTyped t.env) ∧
      ∀ g ∈ s.env.funs.toList, g.Sound true s.env ∧ g.Sound true t.env := by
  have hsound : s.Sound true := by
    rw [← hv]
    exact hs.sound
  refine ⟨fun n hn => ?_, fun g hg => ?_⟩
  · exact ⟨hsound.nodes n hn, (hsound.nodes n hn).mono ht.extends_env⟩
  · exact ⟨hsound.functions g hg, (hsound.functions g hg).mono ht.extends_env⟩

/-- Defines a function of an integer and prints what a call of it returns. -/
def definition : Draft :=
  .construct (.block
    [.construct (.function "f" [.construct (.declare ⟨"x", .int⟩)] (.construct (.block [])) (.construct (.var "x"))),
     .construct (.print (.construct (.call "f" [.construct (.var "x")])))])

/-- Declares and defines the same names once more with other types, and then fails. -/
def redefinition : Draft :=
  .construct (.block
    [.construct (.declare ⟨"x", .text⟩),
     .construct (.function "f" [] (.construct (.block [])) (.construct (.text "a"))),
     .construct (.var "y")])

/-- A program with a call stays well typed when its variable and its function are declared once more. -/
theorem Run.nodes_wellTyped_redefinition :
    ∃ s t root, Run {} start s ∧ Run {} s t ∧ definition.build.exec {} .empty = (.ok root, s.env) ∧
      redefinition.build.exec {} s.env = (.error (.undeclaredIdentifier "y"), t.env) ∧
      t.env.funs.toList.map (·.returnTy) = [.int, .text] ∧ root ∈ s.nodes ∧ root.WellTyped t.env := by
  obtain ⟨s, root, hs, hexec, hmem⟩ := Draft.exists_run {} definition rfl start (by decide +kernel)
  have hsenv : s.env = (definition.build.exec {} .empty).2 := (congrArg Prod.snd hexec).symm
  -- the second draft fails at its end, so only the run of its requests is at hand
  obtain ⟨t, ht, htenv, -⟩ := Draft.performed_build {} redefinition rfl s
  refine ⟨s, t, root, hs, ht, hexec, Prod.ext ?_ htenv, ?_, hmem, ?_⟩
  · rw [hsenv]
    rfl
  · rw [← htenv, hsenv]
    decide +kernel
  · exact ((nodes_wellTyped rfl hs ht).1 root hmem).2

end Session

end ImpC
