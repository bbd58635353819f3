import ImpC.Proofs.C.Written

/-!
# Expressions are read back from their texts

An expression is written in two ways: as it is, where no operator binds around it, and as an operand, where it is put in
parentheses if it is written with an operator itself. `Expr.Denotes e t` says that both are read as the tree `t`, the first
as an expression of whatever level, the second as a postfix expression. A postfix expression may stand on either side of
every operator, under a cast and in front of a suffix, so the texts of expressions can be put together from the texts of their
parts without a look at the operators in them.
-/

namespace ImpC.C

/-! ### Names -/

/-- The second character of a keyword is not an underscore. -/
theorem not_mem_keywords {w : String} (h : w.toList[1]? = some '_') : w ∉ keywords := by
  -- a keyword may start with an underscore, but has a letter behind it
  have hkeywords : ∀ k ∈ keywords, k.toList[1]? ≠ some '_' := by decide +kernel
  exact fun hw => hkeywords w hw h

theorem isIdentifier_helper (h : Helper) : isIdentifier h.name = true ∧ h.name ∉ keywords := by
  cases h <;> decide +kernel

/-- The names of variables and functions are identifiers behind their prefixes, whatever they are in the program. -/
theorem isIdentifier_var {x : String} (hx : isIdentifier x = true) :
    isIdentifier ("v_" ++ x) = true ∧ "v_" ++ x ∉ keywords :=
  ⟨isIdentifier_append (by decide) hx, not_mem_keywords (by simp)⟩

theorem isIdentifier_function {f : String} (hf : isIdentifier f = true) :
    isIdentifier ("f_" ++ f) = true ∧ "f_" ++ f ∉ keywords :=
  ⟨isIdentifier_append (by decide) hf, not_mem_keywords (by simp)⟩

namespace Expr

/-- Both texts of the expression are read as the tree, and the one for operands is a postfix expression. -/
structure Denotes (e : Expr) (t : Tree) : Prop where
  text : Written .assignment e.toText t
  operand : Written .suffixed e.operandText t

/-- An expression that is written without an operator is its own operand. -/
theorem denotes_of_suffixed {e : Expr} {t : Tree} (he : e.isOperation = false) (h : Written .suffixed e.toText t) :
    e.Denotes t := by
  have hoperand : e.operandText = e.toText := by
    rw [operandText, parenthesize, he]
    rfl
  exact ⟨h.loosen (Nat.zero_le _), by rwa [hoperand]⟩

/-- An expression that is written with an operator is put in parentheses. -/
theorem denotes_of_isOperation {e : Expr} {t : Tree} (he : e.isOperation = true) (h : Written .assignment e.toText t) :
    e.Denotes t := by
  have hoperand : e.operandText = "(" ++ e.toText ++ ")" := by
    rw [operandText, parenthesize, he]
    rfl
  exact ⟨h, by rw [hoperand]; exact h.parens.suffixed⟩

theorem denotes_of_primary {e : Expr} {t : Tree} (he : e.isOperation = false) (h : Written .primary e.toText t) :
    e.Denotes t :=
  denotes_of_suffixed he h.suffixed

theorem denotes_name {n : Name} (h : isIdentifier n.toText = true ∧ n.toText ∉ keywords) :
    (name n).Denotes (.ident n.toText) :=
  denotes_of_primary rfl (written_ident h.1 h.2)

theorem denotes_long (v : Int64) : (long v).Denotes (.long v) :=
  denotes_of_primary rfl (written_long v)

theorem denotes_double (x : Binary64) : (double x).Denotes (.double x) :=
  denotes_of_primary rfl (written_double x)

theorem denotes_text (s : String) : (text s).Denotes (.text s) :=
  denotes_of_primary rfl (written_text s)

theorem denotes_size (n : Nat) : (size n).Denotes (.int n false) :=
  denotes_of_primary rfl (written_size n)

theorem denotes_nul : nul.Denotes (.char '\x00') := denotes_of_primary rfl written_nul

theorem denotes_buffer (n : Nat) : (buffer n).Denotes (.compound (.chars n) (.int 0 false)) :=
  denotes_of_suffixed rfl (written_buffer n)

theorem texts_eq_map (es : List Expr) : texts es = es.map toText := by
  induction es with
  | nil => rfl
  | cons e es ih => rw [texts, List.map_cons, ih]

/-- A call of a named function, with the arguments given together with their trees. -/
theorem denotes_call {f : Name} (h : isIdentifier f.toText = true ∧ f.toText ∉ keywords) (args : List (Expr × Tree))
    (hargs : ∀ x ∈ args, x.1.Denotes x.2) :
    (call f (args.map (·.1))).Denotes (.call (.ident f.toText) (args.map (·.2))) := by
  refine denotes_of_suffixed rfl ?_
  have hcallee : Written .suffixed f.toText (.ident f.toText) := (written_ident h.1 h.2).suffixed
  have hwritten : ∀ x ∈ args.map (fun x => (x.1.toText, x.2)), Written .assignment x.1 x.2 := by
    intro x hx
    obtain ⟨y, hy, rfl⟩ := List.mem_map.1 hx
    exact (hargs y hy).text
  have hcall := hcallee.call hwritten
  rw [List.map_map, List.map_map] at hcall
  rw [toText, texts_eq_map, List.map_map]
  exact hcall

theorem Denotes.binary {l r : Expr} {t u : Tree} (hl : l.Denotes t) (hr : r.Denotes u) (op : BinOp) :
    (binary op l r).Denotes (.binary op t u) := by
  -- operands are postfix expressions, which is tighter than any operator asks for
  have hranks : (operatorLevel op).rank ≤ Level.suffixed.rank ∧ (operatorLevel op).next.rank ≤ Level.suffixed.rank := by
    cases op <;> decide
  refine denotes_of_isOperation rfl ?_
  exact (Written.operation op rfl (hl.operand.loosen hranks.1) (hr.operand.loosen hranks.2)).loosen (Nat.zero_le _)

theorem Denotes.assign {n : Name} {e : Expr} {t : Tree} (he : e.Denotes t)
    (h : isIdentifier n.toText = true ∧ n.toText ∉ keywords) : (assign n e).Denotes (.assign (.ident n.toText) t) :=
  denotes_of_isOperation rfl (((written_ident h.1 h.2).loosen (by decide)).assign he.text)

theorem Denotes.first {e : Expr} {t : Tree} (he : e.Denotes t) : (first e).Denotes (.index t (.int 0 false)) :=
  denotes_of_suffixed rfl he.operand.first

end Expr

end ImpC.C
