import ImpC.Proofs.Build.CallOrder
import ImpC.Proofs.Emit.Totality

/-!
# The call graph of the emitted program

`C.Expr.callees` and `C.Stmt.callees` read off emitted code which functions of the program it calls. Emission invents no
calls: what the code for a tree calls is called in the tree (`Emit.calls_of_mem_callees_expr`,
`Emit.calls_of_mem_callees_stmt`). The functions of a program are emitted in the order of their first entries, so the order
of the table (`Backward`) is the order of the program text (`Emit.defined_before`): every call in a function is one of a
function whose whole definition stands in front of it, and C needs no prototypes.
-/

namespace ImpC

/-! ### What emitted code calls -/

namespace C

/-- The function of the program that the name stands for. -/
@[simp] def Name.function? : Name → Option String
  | function f => some f
  | _ => none

mutual

/-- The functions of the program that an expression calls. -/
@[simp] def Expr.callees : Expr → List String
  | .binary _ l r => l.callees ++ r.callees
  | .assign _ e | .first e | .toLong e => e.callees
  | .call callee args => callee.function?.toList ++ Expr.calleesAll args
  | .name _ | .long _ | .double _ | .text _ | .size _ | .nul | .buffer _ | .sizeOf _ | .room _ | .addressOf _ => []

/-- The functions of the program that several expressions call. -/
@[simp] def Expr.calleesAll : List Expr → List String
  | [] => []
  | e :: es => e.callees ++ Expr.calleesAll es

end

mutual

/-- The functions of the program that a statement calls. -/
@[simp] def Stmt.callees : Stmt → List String
  | .expr e | .ret e | .declare _ _ (some e) => e.callees
  | .buffer .. | .declare _ _ none => []
  | .store _ i e => i.callees ++ e.callees
  | .branch c a none => c.callees ++ Stmt.calleesAll a
  | .branch c a (some b) => c.callees ++ Stmt.calleesAll a ++ Stmt.calleesAll b
  | .loop c b => c.callees ++ Stmt.calleesAll b
  | .block b => Stmt.calleesAll b

/-- The functions of the program that statements in sequence call. -/
@[simp] def Stmt.calleesAll : List Stmt → List String
  | [] => []
  | s :: ss => s.callees ++ Stmt.calleesAll ss

end

/-- The functions of the program that a function calls. -/
def Function.callees (f : Function) : List String := Stmt.calleesAll f.body

@[simp] theorem Stmt.calleesAll_append (ss ts : List Stmt) :
    Stmt.calleesAll (ss ++ ts) = Stmt.calleesAll ss ++ Stmt.calleesAll ts := by
  induction ss with
  | nil => rfl
  | cons s ss ih => rw [List.cons_append, calleesAll, calleesAll, ih, List.append_assoc]

@[simp] theorem Stmt.calleesAll_singleton (s : Stmt) : Stmt.calleesAll [s] = s.callees := List.append_nil _

@[simp] theorem callees_mainFunction (body : List Stmt) : (mainFunction body).callees = Stmt.calleesAll body := by
  simp [mainFunction, Function.callees]

/-- The text of `d` stands in the text of the program in front of that of `c`. -/
def Program.Precedes (p : Program) (width : Nat) (d c : Function) : Prop :=
  ∃ before between after,
    p.toText width = before ++ d.toText width ++ between ++ c.toText width ++ after

/-- The text of a program around one of its functions. -/
theorem Program.toText_eq_append {p : Program} {l₁ l₂ : List Function} {d : Function} (width : Nat)
    (h : p.functions = l₁ ++ d :: l₂) :
    ∃ before, p.toText width =
      before ++ d.toText width ++ "\n" ++ String.join (l₂.map (·.toText width ++ "\n")) ++ p.main.toText width := by
  -- what is in front of the functions, headers, routines and variables, does not matter here
  obtain ⟨opening, hopening⟩ : ∃ opening, p.toText width =
      opening ++ String.join (p.functions.map (·.toText width ++ "\n")) ++ p.main.toText width := ⟨_, rfl⟩
  refine ⟨opening ++ String.join (l₁.map (·.toText width ++ "\n")), ?_⟩
  rw [hopening, h, List.map_append, List.map_cons, String.join_append, String.join_cons]
  simp only [String.append_assoc]

/-- Functions are written in their order. -/
theorem Program.precedes_of_append {p : Program} {l₁ l₂ : List Function} {d c : Function} (width : Nat)
    (h : p.functions = l₁ ++ c :: l₂) (hd : d ∈ l₁) : p.Precedes width d c := by
  -- split at `d` first; `c` is then among the functions behind it
  obtain ⟨k₁, k₂, rfl⟩ := List.append_of_mem hd
  rw [List.append_assoc, List.cons_append] at h
  obtain ⟨before, htext⟩ := Program.toText_eq_append width h
  refine ⟨before, "\n" ++ String.join (k₂.map (·.toText width ++ "\n")),
    "\n" ++ String.join (l₂.map (·.toText width ++ "\n")) ++ p.main.toText width, ?_⟩
  rw [htext, List.map_append, List.map_cons, String.join_append, String.join_cons]
  simp only [String.append_assoc]

/-- All functions are written in front of `main`. -/
theorem Program.precedes_main {p : Program} {d : Function} (width : Nat) (hd : d ∈ p.functions) :
    p.Precedes width d p.main := by
  obtain ⟨l₁, l₂, h⟩ := List.append_of_mem hd
  obtain ⟨before, htext⟩ := Program.toText_eq_append width h
  refine ⟨before, "\n" ++ String.join (l₂.map (·.toText width ++ "\n")), "", ?_⟩
  rw [htext, String.append_empty]
  simp only [String.append_assoc]

end C

namespace Emit

open C (Expr Stmt)

variable {o : EmitOptions} {readTy : String → Option Ty} {result : Option Ty} {n : Node} {f : String}

/-! ### Emission invents no calls -/

theorem mem_callees_operation {op : BinOp} {ty leftTy : Option Ty} {l r : Expr}
    (hf : f ∈ (operation o op ty leftTy l r).callees) : f ∈ l.callees ∨ f ∈ r.callees := by
  unfold operation at hf
  split at hf
  -- the routines and `strcmp`, which operations are written with, are no functions of the program
  all_goals
    try split at hf
    all_goals simpa using hf

theorem callees_copyText (target : C.Name) (value : Expr) : (copyText o target value).callees = value.callees := by
  simp [copyText]

theorem exists_calls_of_mem_calleesAll {ns : List Node} {es : List Expr} (h : exprs o ns = .ok es)
    (ih : ∀ m ∈ ns, ∀ e, expr o m = .ok e → f ∈ e.callees → m.Calls f) (hf : f ∈ Expr.calleesAll es) :
    ∃ m ∈ ns, m.Calls f := by
  induction ns generalizing es with
  | nil =>
    cases h
    exact absurd hf List.not_mem_nil
  | cons m ns ihns =>
    obtain ⟨e, he, h⟩ := bind_eq_ok_iff.1 h
    obtain ⟨es', hes, h⟩ := bind_eq_ok_iff.1 h
    cases h
    obtain hf | hf := List.mem_append.1 hf
    · exact ⟨m, List.mem_cons_self, ih m List.mem_cons_self e he hf⟩
    · obtain ⟨k, hk, hcalls⟩ := ihns hes (fun k hk => ih k (List.mem_cons_of_mem _ hk)) hf
      exact ⟨k, List.mem_cons_of_mem _ hk, hcalls⟩

/-- **The expression emitted for a tree calls only what the tree calls.** -/
theorem calls_of_mem_callees_expr {e : Expr} (h : expr o n = .ok e) (hf : f ∈ e.callees) : n.Calls f := by
  induction n using Node.induction generalizing e with
  | mk c ty ih =>
    have hpart : ∀ m ∈ c.parts, ∀ e, expr o m = .ok e → f ∈ e.callees → Node.Calls ⟨c, ty⟩ f :=
      fun m hm e he hf => (ih m hm he hf).part hm
    cases c with
    | int v | float v | text v | var x =>
      cases h
      exact absurd hf List.not_mem_nil
    | binary op l r =>
      obtain ⟨left, hl, h⟩ := bind_eq_ok_iff.1 h
      obtain ⟨right, hr, h⟩ := bind_eq_ok_iff.1 h
      cases h
      obtain hf | hf := mem_callees_operation hf
      · exact hpart l (by simp [Construct.parts]) left hl hf
      · exact hpart r (by simp [Construct.parts]) right hr hf
    | assign x v =>
      obtain ⟨value, hv, h⟩ := bind_eq_ok_iff.1 h
      cases h
      have hf : f ∈ value.callees := by
        split at hf
        · rwa [callees_copyText] at hf
        · exact hf
      exact hpart v (List.mem_singleton.2 rfl) value hv hf
    | call g args =>
      obtain ⟨es, hes, h⟩ := bind_eq_ok_iff.1 h
      cases h
      -- the hidden buffer of a text result calls nothing
      have hf : f = g ∨ f ∈ Expr.calleesAll es := by
        split at hf <;> simpa using hf
      obtain rfl | hf := hf
      · exact ⟨args, ty, .refl _⟩
      · obtain ⟨m, hm, hcalls⟩ := exists_calls_of_mem_calleesAll hes (fun m hm e => ih m hm) hf
        exact hcalls.part hm
    | print | read | declare | branch | loop | count | block | function | ret => cases h

theorem calls_of_mem_callees_condition {e : Expr} (h : condition o n = .ok e) (hf : f ∈ e.callees) : n.Calls f := by
  obtain ⟨value, hv, h⟩ := bind_eq_ok_iff.1 h
  cases h
  have hf : f ∈ value.callees := by
    split at hf
    · simpa using hf
    · exact hf
  exact calls_of_mem_callees_expr hv hf

theorem calls_of_mem_callees_assignment {x : String} {s : Stmt} (h : assignment o x n = .ok s) (hf : f ∈ s.callees) :
    n.Calls f := by
  unfold assignment at h
  split at h
  -- a concatenation is put together in place, from both operands
  · next l r =>
    obtain ⟨left, hl, h⟩ := bind_eq_ok_iff.1 h
    obtain ⟨right, hr, h⟩ := bind_eq_ok_iff.1 h
    cases h
    have hf : f ∈ left.callees ∨ f ∈ right.callees := by
      simpa [concatenation, callees_copyText] using hf
    obtain hf | hf := hf
    · exact (calls_of_mem_callees_expr hl hf).part (by simp [Construct.parts])
    · exact (calls_of_mem_callees_expr hr hf).part (by simp [Construct.parts])
  · obtain ⟨value, hv, h⟩ := bind_eq_ok_iff.1 h
    cases h
    refine calls_of_mem_callees_expr hv ?_
    rw [Stmt.callees] at hf
    split at hf
    · rwa [callees_copyText] at hf
    · exact hf

theorem calls_of_mem_callees_printing {s : Stmt} (h : printing o n = .ok s) (hf : f ∈ s.callees) : n.Calls f := by
  unfold printing at h
  split at h
  · cases h
  · obtain ⟨value, hv, h⟩ := bind_eq_ok_iff.1 h
    cases h
    refine calls_of_mem_callees_expr hv ?_
    simp only [Stmt.callees, Expr.callees, Expr.calleesAll, C.Name.function?] at hf
    split at hf <;> simpa using hf

theorem callees_reading {x : String} {s : Stmt} (h : reading o readTy x = .ok s) : s.callees = [] := by
  unfold reading at h
  split at h
  · cases h
  · next ty _ =>
    cases h
    cases ty <;> simp

theorem calls_of_mem_callees_returning {s : Stmt} (h : returning o result n = .ok s) (hf : f ∈ s.callees) :
    n.Calls f := by
  obtain ⟨value, hv, h⟩ := bind_eq_ok_iff.1 h
  cases h
  refine calls_of_mem_callees_expr hv ?_
  rw [Stmt.callees] at hf
  split at hf
  · rwa [callees_copyText] at hf
  · exact hf

theorem calls_of_mem_callees_evaluation {ss : List Stmt} (h : evaluation o n = .ok ss)
    (hf : f ∈ Stmt.calleesAll ss) : n.Calls f := by
  obtain ⟨e, he, h⟩ := bind_eq_ok_iff.1 h
  cases h
  rw [Stmt.calleesAll_singleton] at hf
  exact calls_of_mem_callees_expr he hf

theorem exists_calls_of_mem_calleesAll_stmts {ns : List Node} {ss : List Stmt} (h : stmts o readTy result ns = .ok ss)
    (ih : ∀ m ∈ ns, ∀ ts, stmt o readTy result m = .ok ts → f ∈ Stmt.calleesAll ts → m.Calls f)
    (hf : f ∈ Stmt.calleesAll ss) : ∃ m ∈ ns, m.Calls f := by
  induction ns generalizing ss with
  | nil =>
    cases h
    exact absurd hf List.not_mem_nil
  | cons m ns ihns =>
    obtain ⟨first, hfirst, h⟩ := bind_eq_ok_iff.1 h
    obtain ⟨rest, hrest, h⟩ := bind_eq_ok_iff.1 h
    cases h
    rw [Stmt.calleesAll_append] at hf
    obtain hf | hf := List.mem_append.1 hf
    · exact ⟨m, List.mem_cons_self, ih m List.mem_cons_self first hfirst hf⟩
    · obtain ⟨k, hk, hcalls⟩ := ihns hrest (fun k hk => ih k (List.mem_cons_of_mem _ hk)) hf
      exact ⟨k, List.mem_cons_of_mem _ hk, hcalls⟩

/-- **The statements emitted for a tree call only what the tree calls.** -/
theorem calls_of_mem_callees_stmt {ss : List Stmt} (h : stmt o readTy result n = .ok ss)
    (hf : f ∈ Stmt.calleesAll ss) : n.Calls f := by
  induction n using Node.induction generalizing ss with
  | mk c ty ih =>
    -- a part is emitted as statements of its own, or stands in a test
    have hpart : ∀ m ∈ c.parts, ∀ ts, stmt o readTy result m = .ok ts → f ∈ Stmt.calleesAll ts →
        Node.Calls ⟨c, ty⟩ f :=
      fun m hm ts hts hf => (ih m hm hts hf).part hm
    have htested : ∀ m ∈ c.parts, ∀ e, condition o m = .ok e → f ∈ e.callees → Node.Calls ⟨c, ty⟩ f :=
      fun m hm e he hf => (calls_of_mem_callees_condition he hf).part hm
    cases c with
    -- these leave no statement where they stand
    | declare | function =>
      cases h
      exact absurd hf List.not_mem_nil
    | int | float | text | var | binary | call => exact calls_of_mem_callees_evaluation h hf
    | assign x v =>
      obtain ⟨s, hs, h⟩ := bind_eq_ok_iff.1 h
      cases h
      rw [Stmt.calleesAll_singleton] at hf
      exact (calls_of_mem_callees_assignment hs hf).part (List.mem_singleton.2 rfl)
    | print v =>
      obtain ⟨s, hs, h⟩ := bind_eq_ok_iff.1 h
      cases h
      rw [Stmt.calleesAll_singleton] at hf
      exact (calls_of_mem_callees_printing hs hf).part (List.mem_singleton.2 rfl)
    | read x =>
      obtain ⟨s, hs, h⟩ := bind_eq_ok_iff.1 h
      cases h
      rw [Stmt.calleesAll_singleton, callees_reading hs] at hf
      exact absurd hf List.not_mem_nil
    | ret v =>
      obtain ⟨s, hs, h⟩ := bind_eq_ok_iff.1 h
      cases h
      rw [Stmt.calleesAll_singleton] at hf
      exact (calls_of_mem_callees_returning hs hf).part (List.mem_singleton.2 rfl)
    | branch c a b =>
      cases b with
      | none =>
        obtain ⟨test, htest, h⟩ := bind_eq_ok_iff.1 h
        obtain ⟨consequent, ha, h⟩ := bind_eq_ok_iff.1 h
        cases h
        have hf : f ∈ test.callees ∨ f ∈ Stmt.calleesAll consequent := by
          simpa using hf
        obtain hf | hf := hf
        · exact htested c (by simp [Construct.parts]) test htest hf
        · exact hpart a (by simp [Construct.parts]) _ ha hf
      | some b =>
        obtain ⟨test, htest, h⟩ := bind_eq_ok_iff.1 h
        obtain ⟨consequent, ha, h⟩ := bind_eq_ok_iff.1 h
        obtain ⟨alternative, hb, h⟩ := bind_eq_ok_iff.1 h
        cases h
        have hf : f ∈ test.callees ∨ f ∈ Stmt.calleesAll consequent ∨ f ∈ Stmt.calleesAll alternative := by
          simpa using hf
        obtain hf | hf | hf := hf
        · exact htested c (by simp [Construct.parts]) test htest hf
        · exact hpart a (by simp [Construct.parts]) _ ha hf
        · exact hpart b (by simp [Construct.parts]) _ hb hf
    | loop c b =>
      obtain ⟨test, htest, h⟩ := bind_eq_ok_iff.1 h
      obtain ⟨body, hb, h⟩ := bind_eq_ok_iff.1 h
      cases h
      have hf : f ∈ test.callees ∨ f ∈ Stmt.calleesAll body := by
        simpa using hf
      obtain hf | hf := hf
      · exact htested c (by simp [Construct.parts]) test htest hf
      · exact hpart b (by simp [Construct.parts]) _ hb hf
    | count i c u b =>
      obtain ⟨init, hi, h⟩ := bind_eq_ok_iff.1 h
      obtain ⟨test, htest, h⟩ := bind_eq_ok_iff.1 h
      obtain ⟨body, hb, h⟩ := bind_eq_ok_iff.1 h
      obtain ⟨update, hu, h⟩ := bind_eq_ok_iff.1 h
      cases h
      have hf : f ∈ Stmt.calleesAll init ∨ f ∈ test.callees ∨ f ∈ Stmt.calleesAll body ∨
          f ∈ Stmt.calleesAll update := by
        simpa using hf
      obtain hf | hf | hf | hf := hf
      · exact hpart i (by simp [Construct.parts]) _ hi hf
      · exact htested c (by simp [Construct.parts]) test htest hf
      · exact hpart b (by simp [Construct.parts]) _ hb hf
      · exact hpart u (by simp [Construct.parts]) _ hu hf
    | block ns =>
      obtain ⟨m, hm, hcalls⟩ := exists_calls_of_mem_calleesAll_stmts h (fun m hm ts => ih m hm) hf
      exact hcalls.part hm

/-! ### The order of the program text -/

variable {g : Function} {fs : List Function} {c : C.Function} {cs l₁ l₂ : List C.Function}

theorem callees_entryCopies (vars : List Variable) : Stmt.calleesAll (entryCopies o vars) = [] := by
  fun_induction entryCopies o vars with
  | case1 => rfl
  | case2 x rest ih => simp [ih]
  | case3 x rest ih => exact ih
  | case4 x rest ih => exact ih

theorem name_of_function (h : function o readTy g = .ok c) : c.name = .function g.name := by
  obtain ⟨body, -, h⟩ := bind_eq_ok_iff.1 h
  obtain ⟨result, -, h⟩ := bind_eq_ok_iff.1 h
  cases h
  rfl

theorem calls_of_mem_callees_function (h : function o readTy g = .ok c) (hf : f ∈ c.callees) : g.Calls f := by
  obtain ⟨body, hbody, h⟩ := bind_eq_ok_iff.1 h
  obtain ⟨result, hresult, h⟩ := bind_eq_ok_iff.1 h
  cases h
  have hf : f ∈ Stmt.calleesAll body ∨ f ∈ Stmt.calleesAll result := by
    simpa [C.Function.callees, callees_entryCopies] using hf
  obtain hf | hf := hf
  · exact .inl (calls_of_mem_callees_stmt hbody hf)
  · exact .inr (calls_of_mem_callees_stmt hresult hf)

/-- Every function has its emitted one. -/
theorem exists_mem_functions (h : functions o readTy fs = .ok cs) (hg : g ∈ fs) :
    ∃ c ∈ cs, function o readTy g = .ok c := by
  induction fs generalizing cs with
  | nil => exact absurd hg List.not_mem_nil
  | cons g' fs ih =>
    obtain ⟨first, hfirst, h⟩ := bind_eq_ok_iff.1 h
    obtain ⟨rest, hrest, h⟩ := bind_eq_ok_iff.1 h
    cases h
    obtain rfl | hg := List.mem_cons.1 hg
    · exact ⟨first, List.mem_cons_self, hfirst⟩
    · obtain ⟨c, hc, hgc⟩ := ih hrest hg
      exact ⟨c, List.mem_cons_of_mem _ hc, hgc⟩

/-- Functions are emitted in their order: what is emitted in front of a function comes from those in front of its own. -/
theorem functions_eq_append (h : functions o readTy fs = .ok (l₁ ++ c :: l₂)) :
    ∃ k₁ g k₂, fs = k₁ ++ g :: k₂ ∧ functions o readTy k₁ = .ok l₁ ∧ function o readTy g = .ok c := by
  induction fs generalizing l₁ with
  | nil =>
    rw [functions] at h
    exact absurd (Except.ok.inj h) (by simp)
  | cons g fs ih =>
    obtain ⟨first, hfirst, h⟩ := bind_eq_ok_iff.1 h
    obtain ⟨rest, hrest, h⟩ := bind_eq_ok_iff.1 h
    cases l₁ with
    -- `c` is the first function emitted
    | nil =>
      cases h
      exact ⟨[], g, fs, rfl, rfl, hfirst⟩
    | cons d l₁ =>
      cases h
      obtain ⟨k₁, g', k₂, rfl, hk₁, hg'⟩ := ih hrest
      refine ⟨g :: k₁, g', k₂, rfl, ?_, hg'⟩
      rw [functions, hfirst, hk₁]
      rfl

/-- **Definitions in front of their uses.** Where all calls lead backwards in a list of functions, they do so among the
emitted functions. -/
theorem defined_before (hback : Backward fs) (h : functions o readTy fs = .ok (l₁ ++ c :: l₂)) (hf : f ∈ c.callees) :
    ∃ d ∈ l₁, d.name = .function f := by
  obtain ⟨k₁, g, k₂, rfl, hk₁, hg⟩ := functions_eq_append h
  obtain ⟨callee, hcallee, rfl⟩ := hback k₁ g k₂ rfl f (calls_of_mem_callees_function hg hf)
  obtain ⟨d, hd, hcd⟩ := exists_mem_functions hk₁ hcallee
  exact ⟨d, hd, name_of_function hcd⟩

theorem names_of_functions (h : functions o readTy fs = .ok cs) :
    cs.map (·.name) = fs.map (.function ·.name) := by
  induction fs generalizing cs with
  | nil =>
    cases h
    rfl
  | cons g fs ih =>
    obtain ⟨first, hfirst, h⟩ := bind_eq_ok_iff.1 h
    obtain ⟨rest, hrest, h⟩ := bind_eq_ok_iff.1 h
    cases h
    rw [List.map_cons, List.map_cons, name_of_function hfirst, ih hrest]

end Emit

namespace Session

/-- **No forward calls and no recursion.** On a builder that validates calls, whatever it was asked for and whichever of
its trees is taken for the root: the functions that the first entry of a name calls have first entries of a smaller
position, the root calls only functions that have an entry, and the calls among the first entries have no cycle. These
are the functions of the emitted program, in this order, and in its text every function stands behind those its code
calls, and `main` behind those that it calls. -/
theorem Run.emitted_calls_lead_backwards {options : BuildOptions} {s : Session} {root : Node} (o : EmitOptions)
    (hv : options.validateCalls = true) (h : Run options .start s) (hroot : root ∈ s.nodes) :
    (∀ g ∈ s.env.funs.firsts, ∀ f, g.Calls f →
      ∃ j i, s.env.position? f = some j ∧ s.env.position? g.name = some i ∧ j < i) ∧
    (∀ f, root.Calls f → ∃ g ∈ s.env.funs.firsts, g.name = f) ∧
    (∀ f, ¬ Relation.TransGen s.env.CallGraph f f) ∧
    ∃ p, Emit.program o s.env root = .ok p ∧
      p.functions.map (·.name) = s.env.funs.firsts.map (.function ·.name) ∧
      (∀ l₁ c l₂, p.functions = l₁ ++ c :: l₂ → ∀ f ∈ c.callees,
        ∃ d ∈ l₁, d.name = .function f ∧ p.Precedes o.indentWidth d c) ∧
      ∀ f ∈ p.main.callees, ∃ d ∈ p.functions, d.name = .function f ∧ p.Precedes o.indentWidth d p.main := by
  have hback := h.backward hv
  have hcalled : ∀ f, root.Calls f → ∃ g ∈ s.env.funs.firsts, g.name = f := by
    intro f hf
    have hsound := h.sound.nodes root hroot
    rw [hv] at hsound
    obtain ⟨g, hg⟩ := Node.WellTyped.function?_of_calls hsound hf
    obtain ⟨-, rfl⟩ := Env.mem_of_function? hg
    exact ⟨g, Registry.mem_firsts_iff.2 hg, rfl⟩
  refine ⟨fun g hg f hf => hback.position?_lt hg hf, hcalled, hback.acyclic, ?_⟩
  obtain ⟨p, hp⟩ := h.exists_program hroot o
  refine ⟨p, hp, ?_⟩
  -- the functions of the program are emitted from the first entries, in their order, and `main` from the root
  obtain ⟨functions, hfunctions, hp⟩ := bind_eq_ok_iff.1 hp
  obtain ⟨main, hmain, hp⟩ := bind_eq_ok_iff.1 hp
  cases hp
  refine ⟨Emit.names_of_functions hfunctions, fun l₁ c l₂ heq f hf => ?_, fun f hf => ?_⟩
  · obtain rfl : functions = l₁ ++ c :: l₂ := heq
    obtain ⟨d, hd, hname⟩ := Emit.defined_before hback.firsts hfunctions hf
    exact ⟨d, hd, hname, C.Program.precedes_of_append _ rfl hd⟩
  · rw [C.callees_mainFunction] at hf
    obtain ⟨g, hg, rfl⟩ := hcalled f (Emit.calls_of_mem_callees_stmt hmain hf)
    obtain ⟨d, hd, hgd⟩ := Emit.exists_mem_functions hfunctions hg
    exact ⟨d, hd, Emit.name_of_function hgd, C.Program.precedes_main _ hd⟩

/-- Defines a function, a second one that calls it, and then the first once more, where it calls the second. -/
def turnedBack : Draft :=
  .construct (.block
    [.construct (.function "f" [.construct (.declare ⟨"x", .int⟩)] (.construct (.block [])) (.construct (.var "x"))),
     .construct (.function "g" [.construct (.declare ⟨"y", .int⟩)] (.construct (.block []))
       (.construct (.call "f" [.construct (.var "y")]))),
     .construct (.function "f" [.construct (.declare ⟨"z", .int⟩)] (.construct (.block []))
       (.construct (.call "g" [.construct (.var "z")]))),
     .construct (.print (.construct (.call "g" [.construct (.int 1)])))])

/-- The definition that would close the cycle is not the one that counts. -/
theorem Run.emitted_calls_lead_backwards_turnedBack :
    ∃ s root, Run {} start s ∧ turnedBack.build.exec {} .empty = (.ok root, s.env) ∧
      s.env.funs.toList.map (·.name) = ["f", "g", "f"] ∧ (∀ f, ¬ Relation.TransGen s.env.CallGraph f f) ∧
      ∃ p, Emit.program {} s.env root = .ok p ∧ p.functions.map (·.name) = [.function "f", .function "g"] := by
  obtain ⟨s, root, hs, hexec, hmem⟩ := Draft.exists_run {} turnedBack rfl start (by decide +kernel)
  have henv : s.env = (turnedBack.build.exec {} .empty).2 := (congrArg Prod.snd hexec).symm
  obtain ⟨-, -, hacyclic, p, hp, hnames, -⟩ := emitted_calls_lead_backwards {} rfl hs hmem
  refine ⟨s, root, hs, hexec, ?_, hacyclic, p, hp, ?_⟩
  · rw [henv]
    decide +kernel
  · rw [hnames, henv]
    decide +kernel

end Session

end ImpC
