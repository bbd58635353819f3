import ImpC.Proofs.Build.Typing
import ImpC.Proofs.Registry

/-!
# Functions call only what was defined before them

A function is registered once its parts are built, and a call is built only if its function is registered. So in the
table of functions every call leads backwards: the functions that an entry calls have entries before it
(`Backward`, `Session.Run.backward`). Calls mean the first entry of a name, which stands no later than any other, so
the first entries among themselves call backwards as well (`Backward.position?_lt`), and their call graph has no cycle
(`Backward.acyclic`), whatever is defined again later under the same name.
-/

namespace ImpC

/-- There is a call of `f` in the tree, at whatever depth. -/
def Node.Calls (n : Node) (f : String) : Prop := ∃ args ty, Node.Within ⟨.call f args, ty⟩ n

/-- There is a call of `f` in the body or in the last statement of the function. -/
def Function.Calls (g : Function) (f : String) : Prop := g.body.Calls f ∨ g.result.Calls f

/-- Every function of the table calls only functions that have an entry before it. -/
def Backward (fs : List Function) : Prop :=
  ∀ earlier g later, fs = earlier ++ g :: later → ∀ f, g.Calls f → ∃ h ∈ earlier, h.name = f

/-- The position of the first function of the name. -/
def Env.position? (env : Env) (f : String) : Option Nat := env.funs.toList.findIdx? (·.name == f)

/-- The function that calls of `f` mean calls `f'`. -/
def Env.CallGraph (env : Env) (f f' : String) : Prop := ∃ g ∈ env.funs.firsts, g.name = f ∧ g.Calls f'

variable {options : BuildOptions} {env : Env} {f : String}

theorem Node.Calls.part {m : Node} {c : Construct Node} {ty : Option Ty} (h : m.Calls f) (hm : m ∈ c.parts) :
    Node.Calls ⟨c, ty⟩ f := by
  obtain ⟨args, t, hwithin⟩ := h
  exact ⟨args, t, .part hm hwithin⟩

/-- Whatever is called in a well-typed tree is registered. -/
theorem Node.WellTyped.function?_of_calls {n : Node} (h : n.WellTyped env) (hf : n.Calls f) :
    ∃ g, env.function? f = some g := by
  obtain ⟨args, ty, hwithin⟩ := hf
  cases h _ hwithin with
  | call _ hsignature =>
    obtain ⟨g, hg, -⟩ := hsignature rfl
    exact ⟨g, hg⟩

/-! ### The table of a run -/

/-- A function may be added behind those it calls. -/
theorem Backward.concat {fs : List Function} {g : Function} (h : Backward fs)
    (hg : ∀ f, g.Calls f → ∃ h ∈ fs, h.name = f) : Backward (fs ++ [g]) := by
  intro earlier g' later heq f hf
  -- nothing is behind `g'`, and it is the new function, or it stands in the old table
  obtain rfl | ⟨later, last, rfl⟩ := List.eq_nil_or_concat later
  · obtain ⟨rfl, hlast⟩ := List.append_inj' heq rfl
    cases hlast
    exact hg f hf
  · rw [List.concat_eq_append, ← List.cons_append, ← List.append_assoc] at heq
    obtain ⟨rfl, -⟩ := List.append_inj' heq rfl
    exact h earlier g' later rfl f hf

/-- **In every run all calls lead backwards.** -/
theorem Session.Run.backward (hv : options.validateCalls = true) {s : Session} (h : Run options .start s) :
    Backward s.env.funs.toList := by
  induction h with
  | refl =>
    intro earlier g later heq
    exact absurd heq (by simp [Session.start])
  | @request t hrun q own ih =>
    obtain hfuns | ⟨g, hregisters, hfuns⟩ := after_funs options own
    · rw [hfuns]
      exact ih
    · rw [hfuns]
      -- the parts of the new function were built before it, and so were the functions they call
      have hsound := hrun.sound.function hregisters
      rw [hv] at hsound
      refine ih.concat fun f hf => ?_
      obtain ⟨g', hg'⟩ : ∃ g', t.env.function? f = some g' := by
        obtain hf | hf := hf
        · exact Node.WellTyped.function?_of_calls hsound.body hf
        · exact Node.WellTyped.function?_of_calls hsound.result hf
      exact ⟨g', Env.mem_of_function? hg'⟩

/-! ### The first entries -/

/-- The first entry of a name stands in front of the entries of the functions that call it. -/
theorem Backward.position?_lt (h : Backward env.funs.toList) {g : Function} (hg : g ∈ env.funs.firsts)
    (hf : g.Calls f) : ∃ j i, env.position? f = some j ∧ env.position? g.name = some i ∧ j < i := by
  rw [Registry.mem_firsts_iff, Registry.find?_eq] at hg
  -- the caller splits the table; the callee has an entry in front of it, and the caller's own name has none there
  obtain ⟨hname, earlier, later, heq, hearlier⟩ := List.find?_eq_some_iff_append.1 hg
  obtain ⟨g', hg', rfl⟩ := h earlier g later heq f hf
  unfold Env.position?
  rw [heq, List.findIdx?_append, List.findIdx?_append]
  have hcallee : (earlier.findIdx? (·.name == g'.name)).isSome := by
    rw [List.findIdx?_isSome, List.any_eq_true]
    exact ⟨g', hg', beq_self_eq_true _⟩
  obtain ⟨j, hj⟩ := Option.isSome_iff_exists.1 hcallee
  have hcaller : earlier.findIdx? (·.name == g.name) = none := by
    rw [List.findIdx?_eq_none_iff]
    exact fun b hb => by simpa using hearlier b hb
  refine ⟨j, earlier.length, by rw [hj]; rfl, ?_, ?_⟩
  · rw [hcaller, List.findIdx?_cons, beq_self_eq_true]
    simp
  · exact (List.findIdx?_eq_some_iff_getElem.1 hj).1

theorem Backward.position?_lt_of_transGen (h : Backward env.funs.toList) {f' : String}
    (hcalls : Relation.TransGen env.CallGraph f f') :
    ∃ j i, env.position? f' = some j ∧ env.position? f = some i ∧ j < i := by
  induction hcalls with
  | single hcall =>
    obtain ⟨g, hg, rfl, hf⟩ := hcall
    exact h.position?_lt hg hf
  | tail _ hcall ih =>
    obtain ⟨g, hg, rfl, hf⟩ := hcall
    obtain ⟨k, j, hk, hj, hkj⟩ := h.position?_lt hg hf
    obtain ⟨j', i, hj', hi, hji⟩ := ih
    -- both steps speak of the position of the function in the middle
    obtain rfl : j = j' := Option.some.inj (hj.symm.trans hj')
    exact ⟨k, i, hk, hi, Nat.lt_trans hkj hji⟩

/-- **No recursion.** No function calls itself, directly or through others. -/
theorem Backward.acyclic (h : Backward env.funs.toList) (f : String) : ¬ Relation.TransGen env.CallGraph f f := by
  intro hcycle
  obtain ⟨j, i, hj, hi, hji⟩ := h.position?_lt_of_transGen hcycle
  obtain rfl : j = i := Option.some.inj (hj.symm.trans hi)
  exact Nat.lt_irrefl _ hji

/-- Among the first entries, in their order, every call leads backwards. -/
theorem Backward.firsts (h : Backward env.funs.toList) : Backward env.funs.firsts := by
  intro earlier g later heq f hf
  -- an entry in front of `g` in the table keeps, under its name, an entry in front of `g` among the first ones
  obtain ⟨earlier', later', htable, rfl, -⟩ := Registry.firstsAfter_eq_append_cons heq
  obtain ⟨g', hg', rfl⟩ := h earlier' g later' htable f hf
  exact Registry.exists_mem_firstsAfter hg' List.not_mem_nil

end ImpC
