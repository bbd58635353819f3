import ImpC.Emit.Expr
import ImpC.Proofs.C.Expr
import ImpC.Proofs.Emit.Totality

/-!
# Emitted expressions are read as what they were meant to be

`Emit.tree?` says what a tree of the language means in C, form by form and without regard to how it is written: arithmetic and
comparison of numbers are C's own operators on the two operands, texts are compared by `strcmp`, division and remainder go
through the routine that looks at the divisor, texts are concatenated and copied by routines, and a call that returns a text
hands over a buffer first.

What is emitted for the tree is a text with operators, parentheses and literals in it. `Emit.exists_denotes` says that a
reader of C, who goes by the grammar and knows nothing of the tree, finds exactly the expression that was meant. Whether an
expression is put in parentheses is decided by its outermost form alone, so the induction carries both ways of writing it.
-/

namespace ImpC

/-- The name that the node itself uses, if it uses one in an expression, is an identifier of C. -/
def Node.isNamed : Node → Bool
  | ⟨.var x, _⟩ | ⟨.assign x _, _⟩ | ⟨.call x _, _⟩ => C.isIdentifier x
  | _ => true

namespace Emit

open C (Expr Tree)

/-! ### What a tree means in C -/

/-- The call of a named function. -/
def callTree (f : String) (args : List Tree) : Tree := .call (.ident f) args

/-- A fresh buffer. -/
def bufferTree (capacity : Nat) : Tree := .compound (.chars capacity) (.int 0 false)

/-- The routine that carries out a division or a remainder. -/
def guardName (op : BinOp) (ty : Option Ty) : String :=
  match op, ty with
  | .div, some .float => "rt_div_float"
  | .div, _ => "rt_div_int"
  | _, some .float => "rt_mod_float"
  | _, _ => "rt_mod_int"

/-- An operation of type `ty` on operands of which the left one has type `leftTy`. -/
def operationTree (o : EmitOptions) (op : BinOp) (ty leftTy : Option Ty) (l r : Tree) : Tree :=
  if op = .add ∧ ty = some .text then
    callTree "rt_text_concat" [bufferTree o.concatCapacity, .int o.concatCapacity false, l, r]
  else if op.isGuarded then callTree (guardName op ty) [l, r]
  else if op.isComparison ∧ leftTy = some .text then .binary op (callTree "strcmp" [l, r]) (.int 0 false)
  else .binary op l r

/-- An assignment of type `ty`. -/
def assignTree (o : EmitOptions) (x : String) (ty : Option Ty) (value : Tree) : Tree :=
  if ty = some .text then callTree "rt_text_copy" [.ident ("v_" ++ x), value, .int o.textCapacity false]
  else .assign (.ident ("v_" ++ x)) value

mutual

/-- The expression in C that a tree means, if it is one of expressions. -/
def tree? (o : EmitOptions) : Node → Option Tree
  | ⟨.int v, _⟩ => some (.long v)
  | ⟨.float x, _⟩ => some (.double x)
  | ⟨.text s, _⟩ => some (.text s)
  | ⟨.var x, _⟩ => some (.ident ("v_" ++ x))
  | ⟨.binary op l r, ty⟩ => do
    let left ← tree? o l
    let right ← tree? o r
    some (operationTree o op ty l.ty left right)
  | ⟨.assign x v, ty⟩ => do
    let value ← tree? o v
    some (assignTree o x ty value)
  | ⟨.call f args, ty⟩ => do
    let args ← trees? o args
    some (callTree ("f_" ++ f) (if ty = some .text then bufferTree o.textCapacity :: args else args))
  | ⟨.print _, _⟩ | ⟨.read _, _⟩ | ⟨.declare _, _⟩ | ⟨.branch .., _⟩ | ⟨.loop .., _⟩ | ⟨.count .., _⟩
  | ⟨.block _, _⟩ | ⟨.function .., _⟩ | ⟨.ret _, _⟩ => none

/-- The expressions in C that trees mean. -/
def trees? (o : EmitOptions) : List Node → Option (List Tree)
  | [] => some []
  | n :: ns => do
    let t ← tree? o n
    let ts ← trees? o ns
    some (t :: ts)

end

/-- The condition that a tree of type `ty` means: a text holds if its first character is not the one that ends it. -/
def conditionTree (ty : Option Ty) (t : Tree) : Tree :=
  if ty = some .text then .binary .ne (.index t (.int 0 false)) (.char '\x00') else t

/-! ### What is emitted is read as what is meant -/

variable {o : EmitOptions} {n : Node}

/-- A routine called with two operands. -/
theorem denotes_helper {l r : Expr} {t u : Tree} (hl : l.Denotes t) (hr : r.Denotes u) (h : C.Helper) :
    (Expr.call (.helper h) [l, r]).Denotes (callTree h.name [t, u]) :=
  Expr.denotes_call (f := .helper h) (C.isIdentifier_helper h) [(l, t), (r, u)] (by simp [hl, hr])

theorem denotes_guard {l r : Expr} {t u : Tree} (hl : l.Denotes t) (hr : r.Denotes u) {op : BinOp}
    (hop : op.isGuarded = true) (ty leftTy : Option Ty) :
    (operation o op ty leftTy l r).Denotes (callTree (guardName op ty) [t, u]) := by
  cases op with
  | div =>
    have hname : guardName .div ty = (if ty = some .float then C.Helper.divFloat else .divInt).name := by
      obtain _ | _ | _ | _ := ty <;> rfl
    rw [hname]
    exact denotes_helper hl hr _
  | mod =>
    have hname : guardName .mod ty = (if ty = some .float then C.Helper.modFloat else .modInt).name := by
      obtain _ | _ | _ | _ := ty <;> rfl
    rw [hname]
    exact denotes_helper hl hr _
  | _ => cases hop

theorem denotes_concat {l r : Expr} {t u : Tree} (hl : l.Denotes t) (hr : r.Denotes u) (leftTy : Option Ty) :
    (operation o .add (some .text) leftTy l r).Denotes
      (callTree "rt_text_concat" [bufferTree o.concatCapacity, .int o.concatCapacity false, t, u]) :=
  Expr.denotes_call (f := .helper .textConcat) (C.isIdentifier_helper .textConcat)
    [(.buffer o.concatCapacity, bufferTree o.concatCapacity), (.size o.concatCapacity, .int o.concatCapacity false),
      (l, t), (r, u)]
    (by simp [hl, hr, Expr.denotes_buffer, Expr.denotes_size, bufferTree])

theorem denotes_textComparison {l r : Expr} {t u : Tree} (hl : l.Denotes t) (hr : r.Denotes u) (op : BinOp) :
    (Expr.binary op (.call (.library .strcmp) [l, r]) (.size 0)).Denotes
      (.binary op (callTree "strcmp" [t, u]) (.int 0 false)) := by
  have hcall : (Expr.call (.library .strcmp) [l, r]).Denotes (callTree "strcmp" [t, u]) :=
    Expr.denotes_call (f := .library .strcmp) (by decide +kernel) [(l, t), (r, u)] (by simp [hl, hr])
  exact hcall.binary (Expr.denotes_size 0) op

/-- Each operation is emitted as what it means. -/
theorem denotes_operation {l r : Expr} {t u : Tree} (hl : l.Denotes t) (hr : r.Denotes u) (op : BinOp)
    (ty leftTy : Option Ty) : (operation o op ty leftTy l r).Denotes (operationTree o op ty leftTy t u) := by
  unfold operationTree
  split
  · next hconcat =>
    obtain ⟨rfl, rfl⟩ := hconcat
    exact denotes_concat hl hr leftTy
  · next hconcat =>
    split
    · next hguarded => exact denotes_guard hl hr hguarded ty leftTy
    · next hguarded =>
      split
      · next hcomparison =>
        obtain ⟨hcomparison, rfl⟩ := hcomparison
        -- a comparison is none of the operators with a form of their own
        have hoperation : operation o op ty (some .text) l r =
            .binary op (.call (.library .strcmp) [l, r]) (.size 0) := by
          cases op <;> first | rfl | cases hcomparison
        rw [hoperation]
        exact denotes_textComparison hl hr op
      · next hcomparison =>
        -- what is left is written with the operator between the operands, whichever it is
        have hoperation : operation o op ty leftTy l r = .binary op l r := by
          cases op <;> simp_all [operation, BinOp.isGuarded, BinOp.isComparison]
        rw [hoperation]
        exact hl.binary hr op

theorem denotes_assign {x : String} (hx : C.isIdentifier x = true) {e : Expr} {t : Tree} (he : e.Denotes t)
    (ty : Option Ty) :
    (if ty = some .text then copyText o (.var x) e else .assign (.var x) e).Denotes (assignTree o x ty t) := by
  have hname : C.isIdentifier (C.Name.var x).toText = true ∧ (C.Name.var x).toText ∉ C.keywords := C.isIdentifier_var hx
  have htarget : (Expr.name (.var x)).Denotes (.ident ("v_" ++ x)) := Expr.denotes_name hname
  unfold assignTree
  split
  · exact Expr.denotes_call (f := .helper .textCopy) (C.isIdentifier_helper .textCopy)
      [(.name (.var x), .ident ("v_" ++ x)), (e, t), (.size o.textCapacity, .int o.textCapacity false)]
      (by simp [htarget, he, Expr.denotes_size])
  · exact he.assign hname

theorem exists_arguments {ns : List Node}
    (h : ∀ m ∈ ns, ∃ e t, expr o m = .ok e ∧ tree? o m = some t ∧ e.Denotes t) :
    ∃ args : List (Expr × Tree), exprs o ns = .ok (args.map (·.1)) ∧ trees? o ns = some (args.map (·.2)) ∧
      ∀ x ∈ args, x.1.Denotes x.2 := by
  induction ns with
  | nil => exact ⟨[], rfl, rfl, nofun⟩
  | cons m ns ih =>
    obtain ⟨⟨e, t, he, ht, hdenotes⟩, h⟩ := List.forall_mem_cons.1 h
    obtain ⟨args, hargs, htrees, hall⟩ := ih h
    refine ⟨(e, t) :: args, ?_, ?_, List.forall_mem_cons.2 ⟨hdenotes, hall⟩⟩
    · rw [exprs, he, hargs]
      rfl
    · rw [trees?, ht, htrees]
      rfl

theorem denotes_call (o : EmitOptions) {f : String} (hf : C.isIdentifier f = true) {args : List (Expr × Tree)}
    (hargs : ∀ x ∈ args, x.1.Denotes x.2) (ty : Option Ty) :
    (Expr.call (.function f) (if ty = some .text then .buffer o.textCapacity :: args.map (·.1) else args.map (·.1))).Denotes
      (callTree ("f_" ++ f) (if ty = some .text then bufferTree o.textCapacity :: args.map (·.2) else args.map (·.2))) := by
  have hname : C.isIdentifier (C.Name.function f).toText = true ∧ (C.Name.function f).toText ∉ C.keywords :=
    C.isIdentifier_function hf
  split
  -- a text is returned in a buffer that the call brings along
  · refine Expr.denotes_call hname ((.buffer o.textCapacity, bufferTree o.textCapacity) :: args) ?_
    exact List.forall_mem_cons.2 ⟨Expr.denotes_buffer o.textCapacity, hargs⟩
  · exact Expr.denotes_call hname args hargs

/-- **Expressions are emitted as what they mean.** The induction is over the tree. -/
theorem exists_denotes (o : EmitOptions) (hpure : n.IsPure) (hnames : n.Everywhere (·.isNamed = true)) :
    ∃ e t, expr o n = .ok e ∧ tree? o n = some t ∧ e.Denotes t := by
  induction n using Node.induction with
  | mk c ty ih =>
    -- for each part both the emitted expression and its meaning are there, and they belong together
    have hparts : ∀ m ∈ c.parts, ∃ e t, expr o m = .ok e ∧ tree? o m = some t ∧ e.Denotes t :=
      fun m hm => ih m hm (hpure.part hm) (hnames.part hm)
    have htop := hpure.top
    have hname := hnames.top
    cases c with
    | int v => exact ⟨_, _, rfl, rfl, Expr.denotes_long v⟩
    | float x => exact ⟨_, _, rfl, rfl, Expr.denotes_double x⟩
    | text s => exact ⟨_, _, rfl, rfl, Expr.denotes_text s⟩
    | var x => exact ⟨_, _, rfl, rfl, Expr.denotes_name (n := .var x) (C.isIdentifier_var hname)⟩
    | binary op l r =>
      obtain ⟨left, t, hl, ht, hleft⟩ := hparts l (by simp [Construct.parts])
      obtain ⟨right, u, hr, hu, hright⟩ := hparts r (by simp [Construct.parts])
      refine ⟨operation o op ty l.ty left right, operationTree o op ty l.ty t u, ?_, ?_,
        denotes_operation hleft hright op ty l.ty⟩
      · rw [expr, hl, hr]
        rfl
      · rw [tree?, ht, hu]
        rfl
    | assign x v =>
      obtain ⟨value, t, hv, ht, hvalue⟩ := hparts v (by simp [Construct.parts])
      refine ⟨_, assignTree o x ty t, ?_, ?_, denotes_assign hname hvalue ty⟩
      · rw [expr, hv]
        rfl
      · rw [tree?, ht]
        rfl
    | call f ns =>
      obtain ⟨args, hargs, htrees, hall⟩ := exists_arguments hparts
      refine ⟨_, _, ?_, ?_, denotes_call o hname hall ty⟩
      · rw [expr, show exprs o ns = _ from hargs]
        rfl
      · rw [tree?, show trees? o ns = _ from htrees]
        rfl
    | print | read | declare | branch | loop | count | block | function | ret => cases htop

theorem denotes_condition {e : Expr} {t : Tree} (he : e.Denotes t) (ty : Option Ty) :
    (if ty = some .text then .binary .ne (.first e) .nul else e).Denotes (conditionTree ty t) := by
  unfold conditionTree
  split
  · exact he.first.binary Expr.denotes_nul .ne
  · exact he

/-- **Emitted expressions are read back.** For every tree of expressions whose names are identifiers, of whatever types and
with whatever options: the text that is emitted for it is an expression of C, and the one that the tree means; the text that
is emitted for it as an operand is the same expression on every level down to that of postfix expressions, so it may stand
under every operator and in front of every suffix, as it does in a condition and under a cast. An integer literal in it is a
`long long` of its value, with no constant out of range. -/
theorem text_reads_iff (o : EmitOptions) (hpure : n.IsPure) (hnames : n.Everywhere (·.isNamed = true)) :
    ∃ e c t, expr o n = .ok e ∧ condition o n = .ok c ∧ tree? o n = some t ∧
      (∀ u, C.Reads .assignment e.toText u ↔ u = t) ∧
      (∀ L, L ≠ .primary → ∀ u, C.Reads L e.operandText u ↔ u = t) ∧
      (∀ u, C.Reads .assignment c.toText u ↔ u = conditionTree n.ty t) ∧
      (∀ u, C.Reads .cast (Expr.toLong e).toText u ↔ u = .cast .longLong t) ∧
      ∀ v, (Tree.long v).constant? = some (true, v.toInt) := by
  obtain ⟨e, t, he, ht, hdenotes⟩ := exists_denotes o hpure hnames
  have hcondition := denotes_condition hdenotes n.ty
  refine ⟨e, _, t, he, by rw [condition, he]; rfl, ht, fun u => hdenotes.text.reads_iff (by decide), ?_,
    fun u => hcondition.text.reads_iff (by decide), ?_, C.constant?_long⟩
  · intro L hL u
    exact hdenotes.operand.reads_iff (by cases L <;> first | decide | exact absurd rfl hL)
  · intro u
    -- a cast is written in front of the operand, as it is where a comparison is printed
    have hcast : C.Written .cast ("(long long)" ++ e.operandText) (.cast .longLong t) :=
      (hdenotes.operand.loosen (by decide)).toLong
    exact hcast.reads_iff (by decide)

/-- An assignment of a product. Its operands are a difference with the least integer in it and a comparison of texts, the
right one of which is returned from a call. -/
def nested : Node :=
  ⟨.assign "x"
    ⟨.binary .mul
      ⟨.binary .sub ⟨.var "x", some .int⟩ ⟨.int (-9223372036854775808), some .int⟩, some .int⟩
      ⟨.binary .lt ⟨.text "a?\n", some .text⟩ ⟨.call "f" [⟨.assign "y" ⟨.int 3, some .int⟩, some .int⟩], some .text⟩,
        some .int⟩,
      some .int⟩,
    some .int⟩

/-- Parentheses stand where the operators alone would bind otherwise, and the text is read as the assignment it was. -/
theorem text_reads_iff_nested :
    nested.IsPure ∧ nested.Everywhere (·.isNamed = true) ∧ ∃ e t, expr {} nested = .ok e ∧ tree? {} nested = some t ∧
      e.toText = "v_x = (v_x - (-9223372036854775807LL - 1)) * " ++
        "(strcmp(\"a\\?\\n\", f_f((char[100])\x7b0\x7d, v_y = 3LL)) < 0)" ∧
      ∀ u, C.Reads .assignment e.toText u ↔ u = t := by
  have hpure : nested.IsPure := by
    simp [nested, Node.IsPure, Node.everywhere_iff, Construct.parts, Node.isExpression, Construct.isExpression]
  have hnames : nested.Everywhere (·.isNamed = true) := by
    simp [nested, Node.everywhere_iff, Construct.parts, Node.isNamed]
    decide
  obtain ⟨e, c, t, he, -, ht, htext, -⟩ := text_reads_iff {} hpure hnames
  refine ⟨hpure, hnames, e, t, he, ht, ?_, htext⟩
  -- the emitted expression is now a closed term
  cases he
  decide +kernel

end Emit

end ImpC
