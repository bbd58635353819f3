import ImpC.Build.Basic
import ImpC.Proofs.Env

/-!
# Environments and the declarations they come from

An environment is two tables, each with an index from names to positions beside it, and it is changed by declarations of
variables and of functions in any order. This module forgets the tables and the indices and keeps the declarations: a
`Declaration` is a call that adds to an environment, and `Env.after history` is the environment that a history of them
leads to from an empty one.

`Env.Records env history` gives every answer of the environment by its history alone:

* the variables are the declared ones without those whose name has come before, and the functions are all that were
  registered, both in the order of the calls;
* a look-up is a search from the front of the table, of a variable as of a function;
* a position that an index gives is one of its table, and the entry there has the name.

The two tables treat a name that is known in different ways, which is the one difference between the cases of
`Env.Records.perform`, the step: a variable is left out, a function is added behind the others. The run is
`Env.records_after`.
-/

namespace ImpC

/-- A call that adds to an environment. -/
inductive Declaration where
  /-- Declares a variable. -/
  | declare (v : Variable)
  /-- Registers a function. -/
  | register (f : Function)

namespace Declaration

/-- The variable that is declared. -/
def declared? : Declaration → Option Variable
  | declare v => some v
  | register _ => none

/-- The function that is registered. -/
def registered? : Declaration → Option Function
  | declare _ => none
  | register f => some f

/-- The environment after the call. -/
def perform (env : Env) : Declaration → Env
  | declare v => (env.declareVariable v).2
  | register f => env.registerFunction f

end Declaration

namespace Env

/-- The environment that a history leads to, from an empty one. -/
def after (history : List Declaration) : Env := history.foldl Declaration.perform empty

/-- The answers of the environment are those that the history of its declarations tells. -/
structure Records (env : Env) (history : List Declaration) : Prop where
  /-- Of several declarations of a variable the first one is kept. -/
  vars : env.vars.toList = (history.filterMap Declaration.declared?).eraseDupsBy (·.name == ·.name)
  /-- All functions are kept. -/
  funs : env.funs.toList = history.filterMap Declaration.registered?
  hasVariable : ∀ x, env.hasVariable x = env.vars.toList.any (·.name == x)
  variableTy? : ∀ x, env.variableTy? x = (env.vars.toList.find? (·.name == x)).map (·.ty)
  /-- Where a type has to be found, a name without one is reported. -/
  variableTy : ∀ x, Build.variableTy env x =
    ((env.vars.toList.find? (·.name == x)).map (·.ty)).elim (.error (.undeclaredIdentifier x)) .ok
  hasFunction : ∀ f, env.hasFunction f = env.funs.toList.any (·.name == f)
  function? : ∀ f, env.function? f = env.funs.toList.find? (·.name == f)
  functionBody? : ∀ f, env.functionBody? f = (env.funs.toList.find? (·.name == f)).map (·.body)
  /-- No position is outside of the table, and none is that of another name. -/
  varsIndex : ∀ x i, env.vars.index[x]? = some i → ∃ v : Variable, env.vars.entries[i]? = some v ∧ v.name = x
  funsIndex : ∀ f i, env.funs.index[f]? = some i → ∃ g : Function, env.funs.entries[i]? = some g ∧ g.name = f

/-- All look-ups of variables have the same answers in both environments. -/
def SameVariables (env env' : Env) : Prop :=
  ∀ x, env.hasVariable x = env'.hasVariable x ∧ env.variableTy? x = env'.variableTy? x ∧
    Build.variableTy env x = Build.variableTy env' x

/-- All look-ups of functions have the same answers in both environments. -/
def SameFunctions (env env' : Env) : Prop :=
  ∀ f, env.hasFunction f = env'.hasFunction f ∧ env.function? f = env'.function? f ∧
    env.functionBody? f = env'.functionBody? f

end Env

/-! ### Tables with an index -/

namespace Registry

variable {α : Type} {key : α → String}

/-- **The index stays within the table.** -/
theorem exists_entry (r : Registry α key) {name : String} {i : Nat} (h : r.index[name]? = some i) :
    ∃ a, r.entries[i]? = some a ∧ key a = name := by
  rw [r.index_eq] at h
  obtain ⟨hi, hkey, -⟩ := Array.findIdx?_eq_some_iff_getElem.1 h
  exact ⟨r.entries[i], Array.getElem?_eq_getElem hi, by simpa using hkey⟩

end Registry

/-! ### Keeping the first of each name -/

section FirstOfEachName

variable {α : Type} {key : α → String}

theorem eraseDupsBy_loop_concat (key : α → String) (l kept : List α) (a : α) :
    List.eraseDupsBy.loop (key · == key ·) (l ++ [a]) kept =
      let first := List.eraseDupsBy.loop (key · == key ·) l kept
      if first.any (key a == key ·) then first else first ++ [a] := by
  induction l generalizing kept with
  | nil =>
    simp only [List.nil_append, List.eraseDupsBy.loop, List.any_reverse]
    cases kept.any (key a == key ·) with
    | true => rfl
    | false => exact List.reverse_cons
  | cons b l ih =>
    rw [List.cons_append, List.eraseDupsBy.loop, List.eraseDupsBy.loop]
    cases kept.any (key b == key ·) with
    | true => exact ih kept
    | false => exact ih (b :: kept)

theorem any_eraseDupsBy_loop (name : String) (l kept : List α) :
    (List.eraseDupsBy.loop (key · == key ·) l kept).any (key · == name) =
      (l.any (key · == name) || kept.any (key · == name)) := by
  induction l generalizing kept with
  | nil => rw [List.eraseDupsBy.loop, List.any_reverse, List.any_nil, Bool.false_or]
  | cons a l ih =>
    rw [List.eraseDupsBy.loop, List.any_cons]
    cases hkept : kept.any (key a == key ·) with
    | false =>
      change (List.eraseDupsBy.loop _ l (a :: kept)).any _ = _
      rw [ih, List.any_cons, ← Bool.or_assoc, Bool.or_comm (l.any _)]
    | true =>
      change (List.eraseDupsBy.loop _ l kept).any _ = _
      rw [ih]
      -- what is left out has the name of something that is kept
      by_cases ha : key a = name
      · have hany : kept.any (key · == name) = true := by
          obtain ⟨b, hb, hab⟩ := List.any_eq_true.1 hkept
          refine List.any_eq_true.2 ⟨b, hb, ?_⟩
          rw [← ha, BEq.comm]
          exact hab
        rw [hany, Bool.or_true, Bool.or_true]
      · rw [beq_false_of_ne ha, Bool.false_or]

/-- One more entry is kept unless its name is that of an entry that is kept already. -/
theorem eraseDupsBy_concat (l : List α) (a : α) :
    (l ++ [a]).eraseDupsBy (key · == key ·) =
      if (l.eraseDupsBy (key · == key ·)).any (key · == key a) then l.eraseDupsBy (key · == key ·)
      else l.eraseDupsBy (key · == key ·) ++ [a] := by
  have hcomm : (fun b => key a == key b) = (key · == key a) := funext fun b => BEq.comm
  have hloop := eraseDupsBy_loop_concat key l [] a
  rwa [hcomm] at hloop

/-- No name is lost. -/
theorem any_eraseDupsBy (name : String) (l : List α) :
    (l.eraseDupsBy (key · == key ·)).any (key · == name) = l.any (key · == name) := by
  rw [List.eraseDupsBy, any_eraseDupsBy_loop, List.any_nil, Bool.or_false]

end FirstOfEachName

/-! ### One declaration, and a history -/

namespace Env

variable {env env' : Env} {history : List Declaration}

/-- The tables decide everything: whatever they hold, look-ups are searches. -/
theorem records_of_tables
    (hvars : env.vars.toList = (history.filterMap Declaration.declared?).eraseDupsBy (·.name == ·.name))
    (hfuns : env.funs.toList = history.filterMap Declaration.registered?) : env.Records history := by
  have hty : ∀ x, env.variableTy? x = (env.vars.toList.find? (·.name == x)).map (·.ty) := by
    intro x
    rw [variableTy?, Registry.find?_eq]
  refine ⟨hvars, hfuns, env.vars.contains_eq, hty, fun x => ?_, env.funs.contains_eq, env.funs.find?_eq, fun f => ?_,
    fun x i => env.vars.exists_entry, fun f i => env.funs.exists_entry⟩
  · rw [← hty, Build.variableTy]
    cases env.variableTy? x with
    | none => rfl
    | some ty => rfl
  · rw [functionBody?, function?, Registry.find?_eq]

/-- **One more declaration.** A variable whose name is known is left out, and a function never is. -/
theorem Records.perform (h : env.Records history) (d : Declaration) : (d.perform env).Records (history ++ [d]) := by
  apply records_of_tables
  · rw [List.filterMap_append]
    cases d with
    | register f =>
      show env.vars.toList = (_ ++ []).eraseDupsBy _
      rw [List.append_nil, h.vars]
    | declare v =>
      show (env.declareVariable v).2.vars.toList = (_ ++ [v]).eraseDupsBy _
      rw [vars_declareVariable, eraseDupsBy_concat, h.hasVariable, h.vars]
  · rw [List.filterMap_append]
    cases d with
    | register f =>
      show (env.registerFunction f).funs.toList = _ ++ [f]
      rw [funs_registerFunction, h.funs]
    | declare v =>
      show (env.declareVariable v).2.funs.toList = _ ++ []
      rw [funs_declareVariable, List.append_nil, h.funs]

/-- **What a history leaves behind.** -/
theorem records_after (history : List Declaration) : (after history).Records history := by
  -- the declarations that are still to come are added to those that were made
  have hrun : ∀ (later earlier : List Declaration) (env : Env), env.Records earlier →
      (later.foldl Declaration.perform env).Records (earlier ++ later) := by
    intro later
    induction later with
    | nil =>
      intro earlier env h
      rwa [List.append_nil]
    | cons d later ih =>
      intro earlier env h
      have hstep := ih (earlier ++ [d]) (d.perform env) (h.perform d)
      rwa [List.append_assoc] at hstep
  exact hrun history [] empty (records_of_tables rfl rfl)

/-- A declaration of a variable says yes if its name is new. -/
theorem Records.declareVariable_eq_true_iff (h : env.Records history) (v : Variable) :
    (env.declareVariable v).1 = true ↔ ∀ w ∈ history.filterMap Declaration.declared?, w.name ≠ v.name := by
  have hknown : env.hasVariable v.name = (history.filterMap Declaration.declared?).any (·.name == v.name) := by
    rw [h.hasVariable, h.vars, any_eraseDupsBy]
  have hanswer : (env.declareVariable v).1 = !env.hasVariable v.name := by
    unfold declareVariable
    cases env.hasVariable v.name with
    | true => rfl
    | false => rfl
  rw [hanswer, hknown, Bool.not_eq_true', List.any_eq_false]
  simp only [beq_iff_eq, ne_eq]

theorem sameVariables_of_eq (h : env.vars = env'.vars) : env.SameVariables env' := by
  intro x
  have hty : env.variableTy? x = env'.variableTy? x := by rw [variableTy?, variableTy?, h]
  refine ⟨by rw [hasVariable, hasVariable, h], hty, ?_⟩
  rw [Build.variableTy, Build.variableTy, hty]

theorem sameFunctions_of_eq (h : env.funs = env'.funs) : env.SameFunctions env' := by
  intro f
  have hfound : env.function? f = env'.function? f := by rw [function?, function?, h]
  refine ⟨by rw [hasFunction, hasFunction, h], hfound, ?_⟩
  rw [functionBody?, functionBody?, hfound]

/-- **An environment is its history.** After any declarations, in any order and with any repetitions, the tables hold the
first declaration of each variable and all functions, in the order of the calls, and look-ups are searches in them that
never leave them. The next declaration of a variable says yes exactly if no declaration before had its name. A call of
one kind does not show in the look-ups of the other. -/
theorem after_answers (history : List Declaration) :
    (after history).Records history ∧
      (∀ v, ((after history).declareVariable v).1 = true ↔
        ∀ w ∈ history.filterMap Declaration.declared?, w.name ≠ v.name) ∧
      (∀ f, ((after history).registerFunction f).SameVariables (after history)) ∧
      ∀ v, ((after history).declareVariable v).2.SameFunctions (after history) := by
  have hrecords := records_after history
  refine ⟨hrecords, hrecords.declareVariable_eq_true_iff, fun f => ?_, fun v => ?_⟩
  · exact sameVariables_of_eq (vars_registerFunction _ f)
  · exact sameFunctions_of_eq (funs_declareVariable _ v)

/-- A function without parameters that returns a number. -/
def constant (f : String) (value : Int64) : Function :=
  ⟨f, [], .int, ⟨.block [], none⟩, ⟨.ret ⟨.int value, some .int⟩, some .int⟩⟩

/-- Every name is declared twice, once with another meaning, and one of them as a variable and as a function. -/
def repeating : List Declaration :=
  [.declare ⟨"x", .int⟩, .register (constant "f" 1), .declare ⟨"f", .text⟩, .declare ⟨"x", .float⟩,
    .register (constant "f" 2)]

/-- A name that is declared again adds no variable and one function, and is found where it was before. -/
theorem after_answers_repeating :
    (after repeating).vars.toList = [⟨"x", .int⟩, ⟨"f", .text⟩] ∧
      (after repeating).variableTy? "x" = some .int ∧
      (after repeating).funs.toList.length = 2 ∧
      (after repeating).function? "f" = some (constant "f" 1) ∧
      ((after repeating).declareVariable ⟨"x", .text⟩).1 ≠ true ∧
      ((after repeating).declareVariable ⟨"y", .text⟩).1 = true := by
  obtain ⟨hrecords, hanswers, -, -⟩ := after_answers repeating
  refine ⟨?_, ?_, ?_, ?_, ?_, ?_⟩
  · rw [hrecords.vars]
    decide
  · rw [hrecords.variableTy?, hrecords.vars]
    decide
  · rw [hrecords.funs]
    rfl
  · rw [hrecords.function?, hrecords.funs]
    rfl
  · rw [ne_eq, hanswers]
    decide
  · rw [hanswers]
    decide

end Env

end ImpC
