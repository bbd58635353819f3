import ImpC.Proofs.Build.Strict
import ImpC.Proofs.Emit.Conversion
import ImpC.Proofs.Emit.Totality
import Mathlib.Data.List.Nodup

/-!
# The names that a function declares

The parameters of a function in C and the buffers at the top of its body share one scope, so their names have to differ.
`C.Function.scopeNames` lists them for an emitted function: the buffer of the caller, a name for each parameter, and a second
one for each parameter that is a text. A parameter is a variable in either case, `v_x`, and a text has the name `a_x`
besides. Sorted by these two kinds (`Emit.perm_scopeNames`), no name is there twice exactly if no two parameters have one
name: the header is legal exactly if the parameters of the function have different names
(`Session.Run.parameter_names_iff`).

Nothing makes sure that they have. Where a variable may be declared again two parameters may be called the same, and even
where it may not, one declaration may be handed over twice (`Session.Run.parameter_names_repeated`). The second is then the
only way: with `rejectRedeclaration`, parameters of one name are one variable.
-/

namespace ImpC

namespace C

/-- The names in the outermost scope of a function: those of its parameters, and of the buffers at the top of its body. -/
def Function.scopeNames (c : Function) : List Name := c.params.map Param.name ++ c.body.filterMap Stmt.bufferName?

namespace Name

/-- The names that the outermost scope of an emitted function may have. -/
inductive InScope : Name → Prop where
  | result : InScope .result
  | var (x : String) : InScope (.var x)
  | argument (x : String) : InScope (.argument x)

/-- **Names of one scope are spelled differently.** The first letter tells their kind. -/
theorem InScope.toText_inj {m n : Name} (hm : InScope m) (hn : InScope n) (h : m.toText = n.toText) : m = n := by
  have hhead : m.toText.toList.head? = n.toText.toList.head? := by rw [h]
  cases hm with
  | result =>
    cases hn with
    | result => rfl
    | var | argument => simp [toText] at hhead
  | var x =>
    cases hn with
    | var y => exact congrArg Name.var ((String.append_right_inj _).1 h)
    | result | argument => simp [toText] at hhead
  | argument x =>
    cases hn with
    | argument y => exact congrArg Name.argument ((String.append_right_inj _).1 h)
    | result | var => simp [toText] at hhead

end Name

end C

namespace Emit

open C (Name Stmt)
open scoped List

variable {o : EmitOptions} {readTy : String → Option Ty} {g : Function} {c : C.Function}

/-! ### Names by their kinds -/

/-- The parameters that are texts. -/
def textParams (vars : List Variable) : List Variable := vars.filter (·.ty = .text)

/-- The name under which a parameter arrives. -/
def paramName (v : Variable) : Name := if v.ty = .text then .argument v.name else .var v.name

theorem name_param (v : Variable) : (param v).name = paramName v := by
  obtain ⟨x, ty⟩ := v
  cases ty <;> rfl

theorem map_name_params (returnTy : Ty) (vars : List Variable) :
    (params returnTy vars).map C.Param.name = (if returnTy = .text then [.result] else []) ++ vars.map paramName := by
  have hvars : (vars.map param).map C.Param.name = vars.map paramName := by
    rw [List.map_map]
    exact List.map_congr_left fun v _ => name_param v
  unfold params
  split
  · rw [List.map_cons, hvars]
    rfl
  · exact hvars

/-- The buffers that are filled on entry are those of the texts. -/
theorem bufferNames_entryCopies (vars : List Variable) :
    (entryCopies o vars).filterMap Stmt.bufferName? = (textParams vars).map fun v => .var v.name := by
  induction vars with
  | nil => rfl
  | cons v vars ih =>
    obtain ⟨x, ty⟩ := v
    cases ty with
    | int | float => exact ih
    | text => exact congrArg (Name.var x :: ·) ih

/-- **The names of an emitted function**, in the order in which they are declared. -/
theorem scopeNames_of_function (h : function o readTy g = .ok c) :
    c.scopeNames = (if g.returnTy = .text then [.result] else []) ++ g.params.map paramName ++
      (textParams g.params).map fun v => .var v.name := by
  obtain ⟨body, result, hbody, hresult, rfl⟩ := function_eq_ok h
  -- the code of the body declares buffers inside of blocks only
  rw [C.Function.scopeNames, map_name_params, List.filterMap_append, List.filterMap_append, hbody.bufferName?,
    hresult.bufferName?, List.append_nil, List.append_nil, bufferNames_entryCopies]

/-- Every parameter is a variable, under the name with which it arrives or as a buffer, and a text is an argument besides. -/
theorem perm_scopeNames (vars : List Variable) :
    (vars.map paramName ++ (textParams vars).map fun v => .var v.name) ~
      (vars.map fun v => .var v.name) ++ (textParams vars).map fun v => .argument v.name := by
  induction vars with
  | nil => exact .refl _
  | cons v vars ih =>
    obtain ⟨x, ty⟩ := v
    cases ty with
    | int | float => exact ih.cons (.var x)
    | text =>
      -- both names of the text are moved to the front
      calc Name.argument x :: (vars.map paramName ++ .var x :: (textParams vars).map fun v => .var v.name)
          ~ .argument x :: .var x :: (vars.map paramName ++ (textParams vars).map fun v => .var v.name) :=
            List.perm_middle.cons _
        _ ~ .var x :: .argument x :: (vars.map paramName ++ (textParams vars).map fun v => .var v.name) :=
            .swap _ _ _
        _ ~ .var x :: .argument x :: ((vars.map fun v => .var v.name) ++ (textParams vars).map fun v => .argument v.name) :=
            (ih.cons _).cons _
        _ ~ .var x :: ((vars.map fun v => .var v.name) ++ .argument x :: (textParams vars).map fun v => .argument v.name) :=
            List.perm_middle.symm.cons _

/-- Names are declared once if parameters have different names, and only then. -/
theorem nodup_scopeNames_iff (h : function o readTy g = .ok c) :
    c.scopeNames.Nodup ↔ (g.params.map (·.name)).Nodup := by
  have hperm : c.scopeNames.Perm ((if g.returnTy = .text then [Name.result] else []) ++
      ((g.params.map fun v => .var v.name) ++ (textParams g.params).map fun v => .argument v.name)) := by
    rw [scopeNames_of_function h, List.append_assoc]
    exact (perm_scopeNames g.params).append_left _
  have hvars : (g.params.map fun v => Name.var v.name).Nodup ↔ (g.params.map (·.name)).Nodup := by
    have hmap : (g.params.map fun v => Name.var v.name) = (g.params.map (·.name)).map .var := by
      rw [List.map_map]
      rfl
    rw [hmap]
    exact List.nodup_map_iff fun _ _ => Name.var.inj
  rw [hperm.nodup_iff]
  constructor
  · intro hnodup
    exact hvars.1 (List.nodup_append.1 (List.nodup_append.1 hnodup).2.1).1
  · intro hnames
    have harguments : ((textParams g.params).map fun v => Name.argument v.name).Nodup := by
      -- the texts among the parameters have different names as well
      have htexts : ((textParams g.params).map (·.name)).Nodup :=
        hnames.sublist (List.filter_sublist.map _)
      have hmap : ((textParams g.params).map fun v => Name.argument v.name) =
          ((textParams g.params).map (·.name)).map .argument := by
        rw [List.map_map]
        rfl
      rw [hmap]
      exact (List.nodup_map_iff fun _ _ => Name.argument.inj).2 htexts
    have hinner := (hvars.2 hnames).append harguments (by simp [List.disjoint_left])
    split
    · exact List.nodup_cons.2 ⟨by simp, hinner⟩
    · exact hinner

theorem inScope_of_mem_scopeNames (h : function o readTy g = .ok c) : ∀ n ∈ c.scopeNames, n.InScope := by
  rw [scopeNames_of_function h]
  intro n hn
  obtain hn | hn := List.mem_append.1 hn
  · obtain hn | hn := List.mem_append.1 hn
    · split at hn
      · obtain rfl := List.mem_singleton.1 hn
        exact .result
      · exact absurd hn List.not_mem_nil
    · obtain ⟨v, -, rfl⟩ := List.mem_map.1 hn
      unfold paramName
      split
      · exact .argument v.name
      · exact .var v.name
  · obtain ⟨v, -, rfl⟩ := List.mem_map.1 hn
    exact .var v.name

/-- **When a header is legal.** -/
theorem nodup_map_toText_scopeNames_iff (h : function o readTy g = .ok c) :
    (c.scopeNames.map Name.toText).Nodup ↔ (g.params.map (·.name)).Nodup := by
  rw [← nodup_scopeNames_iff h]
  constructor
  · exact List.Nodup.of_map _
  · have hscope := inScope_of_mem_scopeNames h
    exact List.Nodup.map_on fun m hm n hn => (hscope m hm).toText_inj (hscope n hn)

end Emit

/-! ### Functions of a builder -/

namespace Session

variable {options : BuildOptions} {s : Session} {g : Function}

/-- Where names must not be declared twice, parameters of one name are one variable. -/
theorem Run.nodup_params_iff_of_reject (hreject : options.rejectRedeclaration = true) (h : Run options start s)
    (hg : g ∈ s.env.funs.toList) : (g.params.map (·.name)).Nodup ↔ g.params.Nodup := by
  refine ⟨List.Nodup.of_map _, List.Nodup.map_on fun v hv w hw hname => ?_⟩
  have hfind := h.vars_find?_of_reject hreject
  have hv' := hfind v (h.param_mem_declarations hg hv)
  have hw' := hfind w (h.param_mem_declarations hg hw)
  rw [hname, hw'] at hv'
  exact (Option.some.inj hv').symm

/-- **When the names that a function declares differ.** Every function that a builder has registered, with whatever options,
is emitted. The names in its outermost scope are the buffer of the caller for a text result, one name for each parameter,
and the buffer for each parameter that is a text. They are pairwise different exactly if the names of the parameters are.
Where names must not be declared twice, this is so exactly if no declaration is handed over twice. -/
theorem Run.parameter_names_iff (o : EmitOptions) (h : Run options start s) (hg : g ∈ s.env.funs.toList) :
    ∃ c, Emit.function o s.env.variableTy? g = .ok c ∧
      c.scopeNames.map C.Name.toText = (if g.returnTy = .text then ["rt_out"] else []) ++
        g.params.map (fun v => if v.ty = .text then "a_" ++ v.name else "v_" ++ v.name) ++
        (Emit.textParams g.params).map (fun v => "v_" ++ v.name) ∧
      ((c.scopeNames.map C.Name.toText).Nodup ↔ (g.params.map (·.name)).Nodup) ∧
      (options.rejectRedeclaration = true → ((g.params.map (·.name)).Nodup ↔ g.params.Nodup)) := by
  have hsound := h.sound.functions g hg
  obtain ⟨c, hc⟩ := Emit.exists_function o hsound.body.emittable hsound.result.emittable
  refine ⟨c, hc, ?_, Emit.nodup_map_toText_scopeNames_iff hc, fun hreject => h.nodup_params_iff_of_reject hreject hg⟩
  rw [Emit.scopeNames_of_function hc, List.map_append, List.map_append, List.map_map, List.map_map]
  congr 1
  congr 1
  · split <;> rfl
  · refine List.map_congr_left fun v _ => ?_
    show (Emit.paramName v).toText = _
    unfold Emit.paramName
    split <;> rfl

/-- A function of a text and a number that prints the number and gives the text back. -/
def echoing : Draft :=
  .construct (.function "f" [.construct (.declare ⟨"s", .text⟩), .construct (.declare ⟨"n", .int⟩)]
    (.construct (.print (.construct (.var "n")))) (.construct (.var "s")))

/-- The function has four names for its two parameters and its result. -/
theorem Run.parameter_names_iff_echoing :
    ∃ s g c, Run { rejectRedeclaration := true } start s ∧ g ∈ s.env.funs.toList ∧
      Emit.function {} s.env.variableTy? g = .ok c ∧
      c.scopeNames.map C.Name.toText = ["rt_out", "a_s", "v_n", "v_s"] ∧ (c.scopeNames.map C.Name.toText).Nodup := by
  obtain ⟨s, root, hs, hexec, -⟩ :=
    Draft.exists_run { rejectRedeclaration := true } echoing rfl start (by decide +kernel)
  have henv : s.env = (echoing.build.exec { rejectRedeclaration := true } .empty).2 := (congrArg Prod.snd hexec).symm
  obtain ⟨g, hg, hparams, hty⟩ :
      ∃ g ∈ s.env.funs.toList, g.params = [⟨"s", .text⟩, ⟨"n", .int⟩] ∧ g.returnTy = .text := by
    rw [henv]
    exact ⟨_, List.mem_singleton.2 rfl, rfl, rfl⟩
  obtain ⟨c, hc, hnames, hnodup, -⟩ := parameter_names_iff {} hs hg
  refine ⟨s, g, c, hs, hg, hc, ?_, hnodup.2 ?_⟩
  · rw [hnames, hparams, hty]
    decide
  · rw [hparams]
    decide

/-- A function whose two parameters are declared under one name. -/
def redeclaring : Draft :=
  .construct (.function "f" [.construct (.declare ⟨"x", .int⟩), .construct (.declare ⟨"x", .float⟩)]
    (.construct (.block [])) (.construct (.int 0)))

/-- The definition of a function for which one declaration is handed over twice. -/
def doubling : Request :=
  .construct (.function "f" [⟨.declare ⟨"x", .int⟩, none⟩, ⟨.declare ⟨"x", .int⟩, none⟩] ⟨.block [], none⟩
    ⟨.int 0, some .int⟩)

/-- The function as it is registered, with the types of its two parameters. -/
def doubled (first second : Ty) : Function :=
  ⟨"f", [⟨"x", first⟩, ⟨"x", second⟩], .int, ⟨.block [], none⟩, ⟨.ret ⟨.int 0, some .int⟩, some .int⟩⟩

/-- **Parameters of one name.** With the default options two variables of one name become the parameters of a function, and
with `rejectRedeclaration` one variable does so twice. Both functions are registered and emitted, and their headers declare
a name twice. -/
theorem Run.parameter_names_repeated :
    (∃ s c, Run {} start s ∧ doubled .int .float ∈ s.env.funs.toList ∧
      Emit.function {} s.env.variableTy? (doubled .int .float) = .ok c ∧
      c.header = "long long f_f(long long v_x, double v_x) \x7b" ∧ ¬ (c.scopeNames.map C.Name.toText).Nodup) ∧
    ∃ s c, Run { rejectRedeclaration := true } start s ∧ doubled .int .int ∈ s.env.funs.toList ∧
      Emit.function {} s.env.variableTy? (doubled .int .int) = .ok c ∧
      c.header = "long long f_f(long long v_x, long long v_x) \x7b" ∧ ¬ (c.scopeNames.map C.Name.toText).Nodup := by
  constructor
  · obtain ⟨s, root, hs, hexec, -⟩ := Draft.exists_run {} redeclaring rfl start (by decide +kernel)
    have henv : s.env = (redeclaring.build.exec {} .empty).2 := (congrArg Prod.snd hexec).symm
    refine ⟨s, _, hs, ?_, rfl, by decide, by decide⟩
    rw [henv]
    exact List.mem_singleton.2 rfl
  · have hprepared : Run { rejectRedeclaration := true } start prepared := by
      refine .request (.request (.request .refl _ ?_) _ ?_) _ ?_ <;> exact List.forall_mem_nil _
    have hown : ∀ n ∈ doubling.parts, n ∈ prepared.nodes := by
      intro n hn
      have hparts : n = ⟨.declare ⟨"x", .int⟩, none⟩ ∨ n = ⟨.block [], none⟩ ∨ n = ⟨.int 0, some .int⟩ := by
        simpa [doubling, Request.parts, Construct.parts] using hn
      obtain rfl | rfl | rfl := hparts
      · exact List.mem_cons_self
      · exact List.mem_cons_of_mem _ List.mem_cons_self
      · exact List.mem_cons_of_mem _ (List.mem_cons_of_mem _ List.mem_cons_self)
    refine ⟨_, _, hprepared.request doubling hown, ?_, rfl, by decide, by decide⟩
    exact List.mem_singleton.2 rfl

end Session

end ImpC
