import ImpC.Proofs.Build.Term
import ImpC.Proofs.C.Guards
import ImpC.Proofs.C.Occurrence
import ImpC.Proofs.Emit.Names
import ImpC.Proofs.Emit.Requirements
import Mathlib.Data.List.Forall2

/-!
# Divisions are carried out by routines

C leaves division by zero open, and so emitted code never divides by an operator. A `Division` is a node of a tree that
divides or takes a remainder, with its operands and the routine for it; `Node.codeDivisions` lists those for which code
is emitted, in the order in which emission comes to them. The expressions in the emitted code that divide in whatever
way are the calls for these nodes, one for each and in the same order, on the expressions for the operands
(`Emit.Divides`).

`Emit.Guarded` says the same of a text. It looks at the text alone: at its characters outside of string literals, and at
the calls that are found in its tokens. The text of a function has the property as soon as its code divides like this
(`Emit.Divides.guarded`).

The type of the node selects the routine. In built trees it comes from the types of the operands, so that the routines
for integers are called on integers only (`Division.Fits`).
-/

namespace ImpC

/-! ### The divisions of a tree -/

/-- A division or a remainder, with the routine for it. -/
structure Division where
  helper : C.Helper
  left : Node
  right : Node

/-- The division that a node is. Its type selects the routine. -/
def Node.division? : Node → Option Division
  | ⟨.binary .div l r, ty⟩ => some ⟨if ty = some .float then .divFloat else .divInt, l, r⟩
  | ⟨.binary .mod l r, ty⟩ => some ⟨if ty = some .float then .modFloat else .modInt, l, r⟩
  | _ => none

/-- The division whose value is used at the spot. -/
def Requirement.division? : Requirement → Option Division
  | value n => n.division?
  | printed _ | target _ => none

/-- The divisions in a tree whose value is used. -/
def Node.divisions (n : Node) : List Division := n.requirements.filterMap Requirement.division?

/-- The divisions in a tree that is carried out as a statement. -/
def Node.codeDivisions (n : Node) : List Division := n.codeRequirements.filterMap Requirement.division?

/-- The divisions in the code of a function. -/
def Function.divisions (g : Function) : List Division := g.body.codeDivisions ++ g.result.codeDivisions

namespace Node

theorem divisions_binary (op : BinOp) (l r : Node) (ty : Option Ty) :
    divisions ⟨.binary op l r, ty⟩ = (division? ⟨.binary op l r, ty⟩).toList ++ (l.divisions ++ r.divisions) := by
  rw [divisions, requirements, List.filterMap_cons, Requirement.division?, List.filterMap_append]
  cases division? ⟨.binary op l r, ty⟩ with
  | none => rfl
  | some d => rfl

theorem divisions_assign (x : String) (v : Node) (ty : Option Ty) : divisions ⟨.assign x v, ty⟩ = v.divisions := by
  rw [divisions, requirements, List.filterMap_cons_none rfl]
  rfl

theorem divisions_call (f : String) (ns : List Node) (ty : Option Ty) :
    divisions ⟨.call f ns, ty⟩ = ns.flatMap divisions := by
  rw [divisions, requirements, List.filterMap_cons_none rfl, requirementsAll_eq_flatMap, List.filterMap_flatMap]
  rfl

theorem codeDivisions_block (ns : List Node) (ty : Option Ty) :
    codeDivisions ⟨.block ns, ty⟩ = ns.flatMap codeDivisions := by
  rw [codeDivisions, codeRequirements, codeRequirementsAll_eq_flatMap, List.filterMap_flatMap]
  rfl

end Node

namespace Emit

open C (Expr Stmt)

variable {o : EmitOptions} {readTy : String → Option Ty} {result : Option Ty} {n : Node} {e : Expr} {ss : List Stmt}

/-! ### Divisions in emitted code -/

/-- The expression is the call for the division. -/
structure CarriesOut (o : EmitOptions) (e : Expr) (d : Division) : Prop where
  isDivision : d.helper.isDivision = true
  call : ∃ l r, EmitsExpr o d.left l ∧ EmitsExpr o d.right r ∧ e = .call (.helper d.helper) [l, r]

/-- Among the expressions, those that divide are the calls for the divisions, one for each and in the same order. -/
def Divides (o : EmitOptions) (es : List Expr) (ds : List Division) : Prop :=
  List.Forall₂ (CarriesOut o) (es.filter Expr.isDivision) ds

section Divides

variable {es fs : List Expr} {ds ds' : List Division}

theorem divides_nil : Divides o [] [] := .nil

theorem Divides.append (h : Divides o es ds) (h' : Divides o fs ds') : Divides o (es ++ fs) (ds ++ ds') := by
  rw [Divides, List.filter_append]
  exact List.rel_append h h'

/-- Expressions that do not divide add nothing. -/
theorem Divides.of_filter_eq (h : Divides o es ds) (heq : fs.filter Expr.isDivision = es.filter Expr.isDivision) :
    Divides o fs ds := by
  rw [Divides, heq]
  exact h

theorem Divides.flatMap {α : Type} {xs : List α} {code : α → List Expr} {divisions : α → List Division}
    (h : ∀ x ∈ xs, Divides o (code x) (divisions x)) : Divides o (xs.flatMap code) (xs.flatMap divisions) := by
  induction xs with
  | nil => exact divides_nil
  | cons x xs ih =>
    obtain ⟨hx, hxs⟩ := List.forall_mem_cons.1 h
    rw [List.flatMap_cons, List.flatMap_cons]
    exact hx.append (ih hxs)

end Divides

section Expressions

variable {ds : List Division}

theorem divides_copyText {target : C.Name} {value : Expr} (h : Divides o value.subs ds) :
    Divides o (copyText o target value).subs ds :=
  h.of_filter_eq (by simp [copyText, Expr.subs, Expr.subsAll, Expr.isDivision, C.Helper.isDivision])

/-- Storing in a variable, whether by a copy or by an assignment. -/
theorem divides_storing {x : String} {value : Expr} (h : Divides o value.subs ds) (c : Prop) [Decidable c] :
    Divides o (if c then copyText o (.var x) value else .assign (.var x) value).subs ds := by
  split
  · exact divides_copyText h
  · exact h.of_filter_eq (by simp [Expr.subs, Expr.isDivision])

theorem divides_test (h : Divides o e.subs ds) : Divides o (test n e).subs ds := by
  unfold test
  split
  · exact h.of_filter_eq (by simp [Expr.subs, Expr.isDivision, BinOp.isGuarded])
  · exact h

/-- What an operation that is no division is written with does not divide. -/
theorem filter_operation {op : BinOp} (ty leftTy : Option Ty) (left right : Expr) (h : op.isGuarded = false) :
    (operation o op ty leftTy left right).subs.filter Expr.isDivision =
      (left.subs ++ right.subs).filter Expr.isDivision := by
  unfold operation
  split
  · split <;> simp [Expr.subs, Expr.subsAll, Expr.isDivision, C.Helper.isDivision, BinOp.isGuarded]
  · cases h
  · cases h
  · split <;> simp [Expr.subs, Expr.subsAll, Expr.isDivision, h]

/-- A division is written as a call of its routine. -/
theorem operation_of_division? {op : BinOp} {l r : Node} {ty : Option Ty} {d : Division}
    (h : Node.division? ⟨.binary op l r, ty⟩ = some d) (leftTy : Option Ty) (left right : Expr) :
    d.helper.isDivision = true ∧ d.left = l ∧ d.right = r ∧
      operation o op ty leftTy left right = .call (.helper d.helper) [left, right] := by
  cases op with
  | div | mod =>
    cases h
    refine ⟨?_, rfl, rfl, rfl⟩
    dsimp only
    split <;> rfl
  | add | sub | mul | eq | ne | lt | le | gt | ge => cases h

theorem divides_operation (op : BinOp) (ty : Option Ty) {l r : Node} {left right : Expr} (hl : EmitsExpr o l left)
    (hr : EmitsExpr o r right) (h : Divides o (left.subs ++ right.subs) (l.divisions ++ r.divisions)) :
    Divides o (operation o op ty l.ty left right).subs (Node.divisions ⟨.binary op l r, ty⟩) := by
  rw [Node.divisions_binary]
  cases hd : Node.division? ⟨.binary op l r, ty⟩ with
  | none =>
    refine h.of_filter_eq (filter_operation ty l.ty left right ?_)
    cases op <;> first | rfl | cases hd
  | some d =>
    obtain ⟨hdivision, rfl, rfl, hcall⟩ := operation_of_division? (o := o) hd l.ty left right
    -- the call comes in front of those in its operands
    have hsubs : (Expr.call (.helper d.helper) [left, right]).subs =
        .call (.helper d.helper) [left, right] :: (left.subs ++ right.subs) := by
      simp [Expr.subs, Expr.subsAll]
    have hfirst : (Expr.call (.helper d.helper) [left, right]).isDivision = true := hdivision
    rw [Divides, hcall, hsubs, List.filter_cons_of_pos hfirst]
    exact .cons ⟨hdivision, left, right, hl, hr, rfl⟩ h

/-- **The expression for a tree divides where the tree does.** -/
theorem EmitsExpr.divides (h : EmitsExpr o n e) : Divides o e.subs n.divisions := by
  induction h with
  | int | float | text | var => exact divides_nil
  | binary op ty hl hr ihl ihr => exact divides_operation op ty hl hr (ihl.append ihr)
  | assign x ty hv ih =>
    rw [Node.divisions_assign]
    exact divides_storing ih _
  | call f ty args hargs ih =>
    rw [Node.divisions_call, List.flatMap_map]
    have hargs : Divides o (Expr.subsAll (args.map Prod.snd)) (args.flatMap fun a => a.1.divisions) := by
      rw [Expr.subsAll_eq_flatMap, List.flatMap_map]
      exact .flatMap ih
    split <;> exact hargs.of_filter_eq (by simp [Expr.subs, Expr.subsAll, Expr.isDivision])

end Expressions

/-- **The statements for a tree divide where the tree does.** -/
theorem EmitsStmts.divides (h : EmitsStmts o readTy result n ss) : Divides o (Stmt.subsAll ss) n.codeDivisions := by
  induction h with
  | declare | function => exact divides_nil
  | @concatenate x ty l r left right hl hr =>
    -- of the operation only the operands are left, each in a statement of its own
    have hparts : Divides o (left.subs ++ right.subs) (l.divisions ++ r.divisions) := hl.divides.append hr.divides
    have hdivisions : Node.codeDivisions ⟨.assign x ⟨.binary .add l r, some .text⟩, ty⟩ = l.divisions ++ r.divisions :=
      Node.divisions_binary .add l r (some .text)
    rw [hdivisions]
    exact hparts.of_filter_eq (by simp [concatenation, copyText, Stmt.subs, Stmt.subsAll, Expr.subs, Expr.subsAll,
      Expr.isDivision, C.Helper.isDivision])
  | assign x ty hv hconcat =>
    rw [Stmt.subsAll_singleton]
    exact divides_storing hv.divides _
  | print ty ht hv =>
    rw [Stmt.subsAll_singleton]
    split <;> exact hv.divides.of_filter_eq (by simp [Stmt.subs, Expr.subs, Expr.subsAll, Expr.isDivision])
  | read ty ht =>
    rw [Stmt.subsAll_singleton]
    split <;> exact divides_nil
  | branch ty hc ha iha =>
    rw [Stmt.subsAll_singleton, Node.codeDivisions, Node.codeRequirements, List.filterMap_append]
    exact (divides_test hc.divides).append iha
  | choice ty hc ha hb iha ihb =>
    rw [Stmt.subsAll_singleton, Node.codeDivisions, Node.codeRequirements, List.filterMap_append, List.filterMap_append,
      Stmt.subs, List.append_assoc]
    exact (divides_test hc.divides).append (iha.append ihb)
  | loop ty hc hb ihb =>
    rw [Stmt.subsAll_singleton, Node.codeDivisions, Node.codeRequirements, List.filterMap_append]
    exact (divides_test hc.divides).append ihb
  | count ty hi hc hb hu ihi ihb ihu =>
    rw [Stmt.subsAll_append, Stmt.subsAll_singleton, Stmt.subs, Stmt.subsAll_append, Node.codeDivisions,
      Node.codeRequirements, List.filterMap_append, List.filterMap_append, List.filterMap_append]
    exact ihi.append ((divides_test hc.divides).append (ihb.append ihu))
  | block ty parts hparts ih =>
    rw [Node.codeDivisions_block, List.flatMap_map, Stmt.subsAll_eq_flatMap, List.flatMap_assoc]
    refine .flatMap fun p hp => ?_
    rw [← Stmt.subsAll_eq_flatMap]
    exact ih p hp
  | ret ty hv =>
    rw [Stmt.subsAll_singleton]
    split
    · exact divides_copyText hv.divides
    · exact hv.divides
  | @evaluate n e hn hassign =>
    -- what is no assignment is listed in the same way where its value is used
    have hdivisions : n.codeDivisions = n.divisions := by
      cases hn with
      | assign x ty hv => exact absurd rfl (hassign _ _ _)
      | int | float | text | var | binary | call => rfl
    rw [Stmt.subsAll_singleton, hdivisions]
    exact hn.divides

/-! ### Functions -/

theorem divides_entryCopies (vars : List Variable) : Divides o (Stmt.subsAll (entryCopies o vars)) [] := by
  induction vars with
  | nil => exact divides_nil
  | cons v vars ih =>
    obtain ⟨x, ty⟩ := v
    cases ty with
    | int | float => exact ih
    | text =>
      exact ih.of_filter_eq (by simp [entryCopies, Stmt.subs, Stmt.subsAll, Expr.subs, Expr.subsAll, Expr.isDivision,
        C.Helper.isDivision])

theorem divides_function {g : Function} {c : C.Function} (h : function o readTy g = .ok c) :
    Divides o c.subs g.divisions := by
  obtain ⟨body, result, hbody, hresult, rfl⟩ := function_eq_ok h
  rw [C.Function.subs, Stmt.subsAll_append, Stmt.subsAll_append, List.append_assoc]
  exact (divides_entryCopies g.params).append (hbody.divides.append hresult.divides)

theorem EmitsStmts.divides_main (h : EmitsStmts o readTy result n ss) :
    Divides o (C.mainFunction ss).subs n.codeDivisions :=
  h.divides.of_filter_eq (by simp [Expr.isDivision])

theorem forall₂_functions {gs : List Function} {cs : List C.Function} (h : functions o readTy gs = .ok cs) :
    List.Forall₂ (fun c g => function o readTy g = .ok c) cs gs := by
  induction gs generalizing cs with
  | nil =>
    cases h
    exact .nil
  | cons g gs ih =>
    obtain ⟨first, hfirst, h⟩ := bind_eq_ok_iff.1 h
    obtain ⟨rest, hrest, h⟩ := bind_eq_ok_iff.1 h
    cases h
    exact .cons hfirst (ih hrest)

/-! ### Divisions in a text -/

/-- A call that is found in the tokens of a text is the call for the division: the routine is named, and between the
parentheses behind the name are the tokens of the texts of both operands. The text has it in one piece. -/
structure IsCallFor (o : EmitOptions) (text : String) (found : C.Helper × Option (List (List C.Token)))
    (d : Division) : Prop where
  helper : found.1 = d.helper
  operands : ∃ l r a b, expr o d.left = .ok l ∧ expr o d.right = .ok r ∧
    C.lex l.toText.toList = some a ∧ C.lex r.toText.toList = some b ∧ found.2 = some [a, b] ∧
    C.Occurs (d.helper.name ++ "(" ++ l.toText ++ ", " ++ r.toText ++ ")") text

/-- The text divides by calling routines for the divisions, once for each, and in no other way. -/
structure Guarded (o : EmitOptions) (text : String) (ds : List Division) : Prop where
  /-- Outside of string literals there is no division sign. -/
  signs : ∀ c ∈ C.unquoted .outside text.toList, c ≠ '/' ∧ c ≠ '%'
  /-- The calls that are found are those for the divisions, in their order. -/
  calls : ∃ ts, C.lex text.toList = some ts ∧ List.Forall₂ (IsCallFor o text) (C.divisionCalls ts) ds

section Texts

variable {es : List Expr} {ds : List Division} {d : Division} {text : String}

/-- What divides is a call, and so no operator does. -/
theorem Divides.dividesNatively (h : Divides o es ds) : ∀ e ∈ es, e.dividesNatively = false := by
  have hcalls : List.Forall₂ (fun e d => e.dividesNatively = false ∧ CarriesOut o e d)
      (es.filter Expr.isDivision) ds := by
    refine h.imp fun e d hd => ⟨?_, hd⟩
    obtain ⟨-, l, r, -, -, rfl⟩ := hd
    rfl
  intro e he
  cases hdivision : e.isDivision with
  | true => exact ((List.forall₂_and_left _ _).1 hcalls).1 e (List.mem_filter.2 ⟨he, hdivision⟩)
  | false =>
    cases e with
    | binary op l r => exact hdivision
    | _ => rfl

theorem CarriesOut.isCallFor (h : CarriesOut o e d) (hnamed : e.isNamed = true) (hoccurs : C.Occurs e.toText text) :
    ∃ g, e.guard? = some g ∧ IsCallFor o text (C.guardCall g) d := by
  obtain ⟨hdivision, l, r, hl, hr, rfl⟩ := h
  have hargs : l.isNamed = true ∧ r.isNamed = true := by
    simpa using hnamed
  have htext : (Expr.call (.helper d.helper) [l, r]).toText =
      d.helper.name ++ "(" ++ l.toText ++ ", " ++ r.toText ++ ")" := by
    simp [Expr.toText, Expr.texts, C.Name.toText, String.append_assoc]
  refine ⟨(d.helper, [l, r]), if_pos hdivision, rfl, l, r, l.tokens, r.tokens, expr_eq_ok_iff.2 hl, expr_eq_ok_iff.2 hr,
    (l.lexes hargs.1).lex_eq, (r.lexes hargs.2).lex_eq, rfl, ?_⟩
  rw [← htext]
  exact hoccurs

theorem forall₂_isCallFor (h : List.Forall₂ (CarriesOut o) es ds)
    (hes : ∀ e ∈ es, e.isNamed = true ∧ C.Occurs e.toText text) :
    List.Forall₂ (IsCallFor o text) ((es.filterMap Expr.guard?).map C.guardCall) ds := by
  induction h with
  | nil => exact .nil
  | cons hd _ ih =>
    obtain ⟨⟨hnamed, hoccurs⟩, hes⟩ := List.forall_mem_cons.1 hes
    obtain ⟨g, hg, hcall⟩ := hd.isCallFor hnamed hoccurs
    rw [List.filterMap_cons_some hg, List.map_cons]
    exact .cons hcall (ih hes)

/-- **The text of a function divides as its code does.** -/
theorem Divides.guarded {c : C.Function} (h : Divides o c.subs ds) (hnamed : c.isNamed = true) (width : Nat) :
    Guarded o (c.toText width) ds := by
  have hlex : C.lex (c.toText width).toList = some c.tokens := (c.lexesLines width hnamed).lex_eq
  have htells : C.Tells c.tokens c.subs := C.reading_tells.function hnamed
  constructor
  · intro x hx
    have hsign := C.forall_mem_unquoted hlex (htells.signs h.dividesNatively) x hx
    simpa [C.divisionSigns] using hsign
  · refine ⟨c.tokens, hlex, ?_⟩
    -- behind the last token of the function there is nothing left to be found
    have hcalls : C.divisionCalls c.tokens = (c.subs.filterMap Expr.guard?).map C.guardCall := by
      simpa using htells.calls []
    rw [hcalls, ← Expr.filterMap_guard?]
    refine forall₂_isCallFor h fun e he => ?_
    have he : e ∈ c.subs := List.mem_of_mem_filter he
    exact ⟨C.Function.isNamed_of_mem_subs hnamed he, C.Function.occurs_of_mem_subs width he⟩

end Texts

end Emit

/-! ### Divisions of built trees -/

/-- The routine for the division is made for the types of its operands. -/
structure Division.Fits (d : Division) : Prop where
  /-- A routine for integers is called on integers only. -/
  integers : d.helper = .divInt ∨ d.helper = .modInt → d.left.ty = some .int ∧ d.right.ty = some .int
  /-- A routine for floats is called where one of the operands is a float. -/
  floats : d.helper = .divFloat ∨ d.helper = .modFloat ↔ d.left.ty = some .float ∨ d.right.ty = some .float

section Rule

variable {calls : Bool} {env : Env}

/-- A quotient and a remainder have the type of floats if one of the operands has, and both are integers otherwise. -/
theorem Node.Rule.operands_of_isGuarded {op : BinOp} {l r : Node} {ty : Option Ty}
    (h : Rule calls env ⟨.binary op l r, ty⟩) (hop : op.isGuarded = true) :
    (ty = some .float ∧ (l.ty = some .float ∨ r.ty = some .float)) ∨
      (ty = some .int ∧ l.ty = some .int ∧ r.ty = some .int) := by
  have harithmetic : op.isComparison = false := by cases op <;> first | rfl | cases hop
  cases h with
  | binary hl hr hresult =>
    cases BinOp.resultTy?_eq_some_iff.1 hresult with
    | comparison hcomparison =>
      rw [harithmetic] at hcomparison
      cases hcomparison
    | concat hadd =>
      subst hadd
      cases hop
    | integers => exact .inr ⟨rfl, hl.ty_eq, hr.ty_eq⟩
    | floats _ _ _ hfloat =>
      rw [hl.ty_eq, hr.ty_eq]
      exact .inl ⟨rfl, hfloat.imp (congrArg some) (congrArg some)⟩

theorem Node.Rule.fits {m : Node} {d : Division} (h : m.Rule calls env) (hd : m.division? = some d) : d.Fits := by
  unfold division? at hd
  split at hd
  · cases hd
    obtain ⟨rfl, hfloat⟩ | ⟨rfl, hl, hr⟩ := h.operands_of_isGuarded rfl
    · exact ⟨by simp, by simpa using hfloat⟩
    · exact ⟨fun _ => ⟨hl, hr⟩, by simp [hl, hr]⟩
  · cases hd
    obtain ⟨rfl, hfloat⟩ | ⟨rfl, hl, hr⟩ := h.operands_of_isGuarded rfl
    · exact ⟨by simp, by simpa using hfloat⟩
    · exact ⟨fun _ => ⟨hl, hr⟩, by simp [hl, hr]⟩
  · cases hd

end Rule

namespace Node

variable {m n : Node} {d : Division}

theorem within_of_mem_requirements (h : .value m ∈ n.requirements) : m.Within n := by
  induction n using Node.induction with
  | mk c ty ih =>
    cases c with
    | binary op l r =>
      obtain h | h := List.mem_cons.1 h
      · cases h
        exact .refl _
      obtain h | h := List.mem_append.1 h
      · exact .part (by simp [Construct.parts]) (ih l (by simp [Construct.parts]) h)
      · exact .part (by simp [Construct.parts]) (ih r (by simp [Construct.parts]) h)
    | assign x v =>
      obtain h | h := List.mem_cons.1 h
      · cases h
        exact .refl _
      · exact .part (List.mem_singleton.2 rfl) (ih v (List.mem_singleton.2 rfl) h)
    | call f ns =>
      obtain h | h := List.mem_cons.1 h
      · cases h
        exact .refl _
      · rw [requirementsAll_eq_flatMap] at h
        obtain ⟨k, hk, h⟩ := List.mem_flatMap.1 h
        exact .part hk (ih k hk h)
    | int | float | text | var | print | read | declare | branch | loop | count | block | function | ret =>
      cases List.mem_singleton.1 h
      exact .refl _

theorem within_of_mem_codeRequirements (h : .value m ∈ n.codeRequirements) : m.Within n := by
  induction n using Node.induction with
  | mk c ty ih =>
    have hvalue {k : Node} (hk : k ∈ c.parts) (h : .value m ∈ k.requirements) : m.Within ⟨c, ty⟩ :=
      .part hk (within_of_mem_requirements h)
    have hcode {k : Node} (hk : k ∈ c.parts) (h : .value m ∈ k.codeRequirements) : m.Within ⟨c, ty⟩ :=
      .part hk (ih k hk h)
    cases c with
    | declare | function => exact absurd h List.not_mem_nil
    | assign x v | ret v => exact hvalue (List.mem_singleton.2 rfl) h
    | print v =>
      obtain h | h := List.mem_cons.1 h
      · cases h
      · exact hvalue (List.mem_singleton.2 rfl) h
    | read x => cases List.mem_singleton.1 h
    | branch c a b =>
      cases b with
      | none =>
        obtain h | h := List.mem_append.1 h
        · exact hvalue (by simp [Construct.parts]) h
        · exact hcode (by simp [Construct.parts]) h
      | some b =>
        obtain h | h := List.mem_append.1 h
        · exact hvalue (by simp [Construct.parts]) h
        obtain h | h := List.mem_append.1 h
        · exact hcode (k := a) (by simp [Construct.parts]) h
        · exact hcode (k := b) (by simp [Construct.parts]) h
    | loop c b =>
      obtain h | h := List.mem_append.1 h
      · exact hvalue (by simp [Construct.parts]) h
      · exact hcode (by simp [Construct.parts]) h
    | count i c u b =>
      obtain h | h := List.mem_append.1 h
      · exact hcode (by simp [Construct.parts]) h
      obtain h | h := List.mem_append.1 h
      · exact hvalue (by simp [Construct.parts]) h
      obtain h | h := List.mem_append.1 h
      · exact hcode (k := b) (by simp [Construct.parts]) h
      · exact hcode (k := u) (by simp [Construct.parts]) h
    | block ns =>
      change _ ∈ codeRequirementsAll ns at h
      rw [codeRequirementsAll_eq_flatMap] at h
      obtain ⟨k, hk, h⟩ := List.mem_flatMap.1 h
      exact hcode hk h
    | int | float | text | var | binary | call => exact within_of_mem_requirements h

/-- In a tree whose nodes follow their typing rules the routines fit. -/
theorem fits_of_mem_codeDivisions {calls : Bool} {env : Env} (h : n.Everywhere (Rule calls env))
    (hd : d ∈ n.codeDivisions) : d.Fits := by
  obtain ⟨q, hq, hd⟩ := List.mem_filterMap.1 hd
  cases q with
  | value m => exact (h m (within_of_mem_codeRequirements hq)).fits hd
  | printed | target => cases hd

end Node

/-- **Programs divide by calling routines.** Whatever trees a program was emitted from, if their names are identifiers:
the texts of its functions and of `main` have no division sign outside of string literals, and for each division that is
emitted one call of a routine, on the texts of its operands. In programs that were built, with whatever options, the
routines for integers are called on integers only, and those for floats where one of the operands is a float. -/
theorem Emit.programs_divide_by_routines (o : EmitOptions) :
    (∀ env root text, programText o env root = .ok text → env.Identifiers root →
      ∃ p, program o env root = .ok p ∧ text = p.toText o.indentWidth ∧
        List.Forall₂ (fun c g => Guarded o (c.toText o.indentWidth) g.divisions) p.functions env.funs.firsts ∧
        Guarded o (p.main.toText o.indentWidth) root.codeDivisions) ∧
    ∀ options s root, Session.Run options .start s → root ∈ s.nodes →
      (∀ g ∈ s.env.funs.firsts, ∀ d ∈ g.divisions, d.Fits) ∧ ∀ d ∈ root.codeDivisions, d.Fits := by
  constructor
  · intro env root text htext hnames
    obtain ⟨p, hp, htext⟩ := bind_eq_ok_iff.1 htext
    cases htext
    obtain ⟨hfunctions, hmain⟩ := isNamed_program hp hnames
    obtain ⟨cs, main, hcs, hroot, rfl⟩ := program_eq_ok hp
    refine ⟨_, hp, rfl, ?_, hroot.divides_main.guarded hmain _⟩
    have hcalls := (List.forall₂_and_left _ _).2 ⟨hfunctions, forall₂_functions hcs⟩
    exact hcalls.imp fun c g ⟨hnamed, hc⟩ => (divides_function hc).guarded hnamed _
  · intro options s root hrun hroot
    refine ⟨fun g hg d hd => ?_, fun d hd => Node.fits_of_mem_codeDivisions (hrun.sound.nodes root hroot) hd⟩
    have hsound := hrun.sound.functions g (Registry.mem_of_mem_firsts hg)
    obtain hd | hd := List.mem_append.1 hd
    · exact Node.fits_of_mem_codeDivisions hsound.body hd
    · exact Node.fits_of_mem_codeDivisions hsound.result hd

/-- Defines a function that halves an integer, and prints the signs of division and a remainder of quotients. -/
def quotients : Draft :=
  .construct (.block
    [.construct (.function "half" [.construct (.declare ⟨"n", .int⟩)] (.construct (.block []))
       (.construct (.binary .div (.construct (.var "n")) (.construct (.int 2))))),
     .construct (.print (.construct (.text "/ %"))),
     .construct (.print (.construct (.binary .mod
       (.construct (.binary .div (.construct (.int 7)) (.construct (.call "half" [.construct (.int 4)]))))
       (.construct (.float ⟨0x3ff8000000000000⟩)))))])

/-- The function that is defined. -/
def halving : Function :=
  ⟨"half", [⟨"n", .int⟩], .int, ⟨.block [], none⟩,
    ⟨.ret ⟨.binary .div ⟨.var "n", some .int⟩ ⟨.int 2, some .int⟩, some .int⟩, some .int⟩⟩

/-- The tree that is built. -/
def printedQuotients : Node :=
  ⟨.block
    [⟨.function "half" [⟨.declare ⟨"n", .int⟩, none⟩] halving.body halving.result, none⟩,
     ⟨.print ⟨.text "/ %", some .text⟩, some .text⟩,
     ⟨.print ⟨.binary .mod
       ⟨.binary .div ⟨.int 7, some .int⟩ ⟨.call "half" [⟨.int 4, some .int⟩], some .int⟩, some .int⟩
       ⟨.float ⟨0x3ff8000000000000⟩, some .float⟩, some .float⟩, some .float⟩], none⟩

/-- The remainder is one of floats, and the quotients are those of integers; the signs that are printed stay. -/
theorem Emit.programs_divide_by_routines_quotients :
    ∃ s root text p, Session.Run {} .start s ∧ root ∈ s.nodes ∧ quotients.build.exec {} .empty = (.ok root, s.env) ∧
      s.env.Identifiers root ∧ programText {} s.env root = .ok text ∧ program {} s.env root = .ok p ∧
      s.env.funs.firsts.map (fun g => g.divisions.map (·.helper)) = [[.divInt]] ∧
      root.codeDivisions.map (·.helper) = [.modFloat, .divInt] ∧ (∀ d ∈ root.codeDivisions, d.Fits) ∧
      List.Forall₂ (fun c g => Guarded {} (c.toText 4) g.divisions) p.functions s.env.funs.firsts ∧
      Guarded {} (p.main.toText 4) root.codeDivisions := by
  obtain ⟨s, root, hrun, hexec, hmem⟩ := Draft.exists_run {} quotients rfl .start (by decide +kernel)
  have henv : s.env = (quotients.build.exec {} .empty).2 := (congrArg Prod.snd hexec).symm
  have hfirsts : s.env.funs.firsts = [halving] := by
    rw [henv]
    rfl
  have hroot : root = printedQuotients := by
    have hanswer : (quotients.build.exec {} .empty).1 = .ok root := congrArg Prod.fst hexec
    refine Except.ok.inj (hanswer.symm.trans ?_)
    rfl
  have hnames : s.env.Identifiers root := by
    constructor
    · rw [hfirsts]
      intro g hg
      cases List.mem_singleton.1 hg
      decide
    · intro n hn
      rw [Env.emittedTrees, hfirsts, hroot] at hn
      have hnames : C.isIdentifier "n" = true ∧ C.isIdentifier "half" = true := by decide
      revert n
      simp [Node.UsesIdentifiers, Node.everywhere_iff, Construct.parts, Node.usedName?, printedQuotients, halving,
        hnames]
  obtain ⟨hguarded, hfits⟩ := programs_divide_by_routines {}
  obtain ⟨p, hp⟩ := hrun.exists_program hmem {}
  have htext : programText {} s.env root = .ok (p.toText 4) := by
    rw [programText, hp]
    rfl
  obtain ⟨p', hp', -, hfunctions, hmain⟩ := hguarded s.env root _ htext hnames
  cases hp.symm.trans hp'
  refine ⟨s, root, _, p, hrun, hmem, hexec, hnames, htext, hp, ?_, ?_, (hfits {} s root hrun hmem).2, hfunctions, hmain⟩
  · rw [hfirsts]
    rfl
  · rw [hroot]
    rfl

end ImpC
