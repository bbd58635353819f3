import ImpC.Proofs.Build.Step
import ImpC.Proofs.Tree.Parts

/-!
# Runs of a builder

A program is built by calls on one builder, in any order and number, some of which fail. A `Request` is such a call, and
a `Session` is a builder at some moment of its use: the environment it has arrived at, and all requests so far with
their answers. `Session.Run options s t` says that the session `t` came out of `s` by requests whose parts are trees
that the builder itself gave out before; copies count, since a tree is a value. A run from `Session.start` is the whole
use of a fresh builder.

What one request does is `Session.after_cases`: it fails and adds no tree, or it succeeds in one of the ways of
`Build.Builds` and adds one. Every fact about runs is an induction over `Session.Run` with these two cases.
-/

namespace ImpC

/-- A call of one of the constructors of a builder. -/
inductive Request where
  /-- Builds a construct. -/
  | construct (c : Construct Node)
  /-- Builds a binary operation whose operator is given by its token. -/
  | binary (token : String) (left right : Node)

namespace Request

/-- The trees a request hands over. -/
def parts : Request → List Node
  | construct c => c.parts
  | binary _ l r => [l, r]

/-- The request as a computation. -/
def make : Request → BuildM Node
  | construct c => ImpC.make c
  | binary token l r => makeBinary token l r

/-- What a builder answers, and the environment it is left with. -/
def answer (options : BuildOptions) (env : Env) (q : Request) : Except BuildError Node × Env :=
  q.make.exec options env

variable {options : BuildOptions} {env env' : Env} {q : Request}

theorem answer_construct (c : Construct Node) :
    (construct c).answer options env = Build.build options env c := rfl

/-- An operator token is read first; one that is not known changes nothing. -/
theorem answer_binary (token : String) (l r : Node) :
    (binary token l r).answer options env =
      match BinOp.ofSymbol? token with
      | some op => Build.build options env (.binary op l r)
      | none => (.error (.unknownOperator token), env) := by
  simp only [answer, make, makeBinary]
  cases BinOp.ofSymbol? token with
  | none => rfl
  | some op => rfl

/-- A request that succeeds has built a construct from its parts. -/
theorem builds_of_answer {n : Node} (h : q.answer options env = (.ok n, env')) :
    ∃ c, c.parts = q.parts ∧ Build.Builds options env c n env' := by
  cases q with
  | construct c =>
    rw [answer_construct] at h
    exact ⟨c, rfl, Build.builds_of_build h⟩
  | binary token l r =>
    rw [answer_binary] at h
    split at h
    · next op _ => exact ⟨.binary op l r, rfl, Build.builds_of_build h⟩
    · cases h

theorem extends_answer (options : BuildOptions) (env : Env) (q : Request) :
    env.Extends (q.answer options env).2 := by
  cases q with
  | construct c =>
    rw [answer_construct]
    exact Build.extends_build options env c
  | binary token l r =>
    rw [answer_binary]
    split
    · exact Build.extends_build options env _
    · exact .refl env

theorem funs_of_answer_eq_error {e : BuildError} (h : q.answer options env = (.error e, env')) :
    env'.funs = env.funs := by
  cases q with
  | construct c =>
    rw [answer_construct] at h
    exact Build.funs_of_build_eq_error h
  | binary token l r =>
    rw [answer_binary] at h
    split at h
    · exact Build.funs_of_build_eq_error h
    · cases h
      rfl

end Request

/-- A builder in use: its environment, and the requests so far with their answers, the latest last. -/
structure Session where
  env : Env
  log : List (Request × Except BuildError Node)

namespace Session

/-- A fresh builder. -/
def start : Session := ⟨.empty, []⟩

/-- The trees the builder has given out, in order. -/
def nodes (s : Session) : List Node := s.log.filterMap (·.2.toOption)

/-- The session after one more request. -/
def after (options : BuildOptions) (s : Session) (q : Request) : Session :=
  ⟨(q.answer options s.env).2, s.log ++ [(q, (q.answer options s.env).1)]⟩

/-- The session `t` came out of `s` by requests whose parts are trees that were given out before. -/
inductive Run (options : BuildOptions) (s : Session) : Session → Prop where
  /-- Nothing was requested. -/
  | refl : Run options s s
  /-- One more request. -/
  | request {t : Session} (run : Run options s t) (q : Request) (own : ∀ n ∈ q.parts, n ∈ t.nodes) :
      Run options s (t.after options q)

variable {options : BuildOptions} {s t u : Session} {q : Request} {n : Node}

theorem nodes_after : (s.after options q).nodes = s.nodes ++ (q.answer options s.env).1.toOption.toList := by
  unfold nodes after
  rw [List.filterMap_append]
  cases (q.answer options s.env).1 with
  | error e => rfl
  | ok n => rfl

/-- **What a request does.** It fails, and then no tree is added and no function registered; or it builds a construct
from its parts, and the tree it gives out is added. In both cases the environment only grows. -/
theorem after_cases (options : BuildOptions) (s : Session) (q : Request) :
    ((s.after options q).nodes = s.nodes ∧ (s.after options q).env.funs = s.env.funs) ∨
      ∃ c n, c.parts = q.parts ∧ Build.Builds options s.env c n (s.after options q).env ∧
        (s.after options q).nodes = s.nodes ++ [n] := by
  rw [nodes_after]
  cases h : (q.answer options s.env).1 with
  | error e =>
    -- the environment may have grown by parameters all the same, but not by a function
    have hanswer : q.answer options s.env = (.error e, (s.after options q).env) := Prod.ext h rfl
    refine .inl ⟨?_, Request.funs_of_answer_eq_error hanswer⟩
    exact List.append_nil _
  | ok n =>
    have hanswer : q.answer options s.env = (.ok n, (s.after options q).env) := Prod.ext h rfl
    obtain ⟨c, hparts, hbuilds⟩ := Request.builds_of_answer hanswer
    exact .inr ⟨c, n, hparts, hbuilds, rfl⟩

/-- The function `g` is what a definition from trees of the session `s` registers. -/
structure Registers (s : Session) (g : Function) : Prop where
  /-- The parameters are those of declarations that were given out. -/
  params : ∃ ps : List Node, (∀ p ∈ ps, p ∈ s.nodes) ∧ ps.map Node.construct = g.params.map Construct.declare
  body : g.body ∈ s.nodes
  /-- The last statement was given out, or returns an expression that was. -/
  result : ∃ r ∈ s.nodes, Build.resultStatement r = .ok g.result
  returnTy : g.returnTy = g.result.ty.getD .int

/-- **What a request does to the functions.** It registers none, or one that is made of trees given out before. -/
theorem after_funs (options : BuildOptions) (own : ∀ n ∈ q.parts, n ∈ s.nodes) :
    (s.after options q).env.funs = s.env.funs ∨
      ∃ g, s.Registers g ∧ (s.after options q).env.funs.toList = s.env.funs.toList ++ [g] := by
  obtain ⟨-, hfuns⟩ | ⟨c, n, hparts, hbuilds, -⟩ := after_cases options s q
  · exact .inl hfuns
  · rw [← hparts] at own
    -- the session after the request matters only through its environment
    generalize (s.after options q).env = env' at hbuilds ⊢
    cases hbuilds with
    | declare passes => exact .inl (s.env.funs_declareVariable _)
    | @define f ps b r r' vars env' passes params result =>
      refine .inr ⟨⟨f, vars, r'.ty.getD .int, b, r'⟩, ⟨?_, ?_, ?_, rfl⟩, ?_⟩
      · refine ⟨ps, fun p hp => own p ?_, Build.declareParams_eq_ok params⟩
        exact List.mem_append_left _ hp
      · exact own b (by simp [Construct.parts])
      · exact ⟨r, own r (by simp [Construct.parts]), result⟩
      -- the parameters went into the other table
      · rw [Env.funs_registerFunction, Build.funs_of_declareParams params]
    | typed plain passes => exact .inl rfl

theorem extends_after (options : BuildOptions) (s : Session) (q : Request) :
    s.env.Extends (s.after options q).env :=
  Request.extends_answer options s.env q

namespace Run

theorem trans (h : Run options s t) (h' : Run options t u) : Run options s u := by
  induction h' with
  | refl => exact h
  | request _ q own ih => exact .request ih q own

/-- The environment only grows. -/
theorem extends_env (h : Run options s t) : s.env.Extends t.env := by
  induction h with
  | refl => exact .refl _
  | request _ q _ ih => exact ih.trans (extends_after options _ q)

/-- A tree that was given out stays at hand. -/
theorem mem_nodes (h : Run options s t) (hn : n ∈ s.nodes) : n ∈ t.nodes := by
  induction h with
  | refl => exact hn
  | request _ q _ ih =>
    rw [nodes_after]
    exact List.mem_append_left _ ih

end Run

end Session

end ImpC
