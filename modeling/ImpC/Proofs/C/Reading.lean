import ImpC.Proofs.C.Code
import ImpC.Proofs.C.Tokens

/-!
# Reading the tokens of code

Some things are to be read off the tokens of code and to be compared with the expressions in it: which routines are called,
which constants are named, where there are divisions. A relation `R ts es` between tokens and the expressions in the code
with these tokens is a `Reading` if it goes along with the ways in which code is put together. Side by side it holds of both;
around expressions there are only tokens that tell nothing (`Token.isFrame`); and for each form of expression there is one
rule. A reading then holds of every expression, statement and function (`Reading.expr`, `Reading.stmt`,
`Reading.function`), as long as the names in the code stand where they belong.
-/

namespace ImpC.C

/-! ### Words that tell something -/

/-- The constants of `math.h` that literals are written with. -/
def mathConstants : List String := ["NAN", "INFINITY"]

/-- The words that show a need. -/
def tellingWords : List String := Helper.all.map Helper.name ++ mathConstants

theorem name_mem_tellingWords (h : Helper) : h.name ∈ tellingWords :=
  List.mem_append_left _ (List.mem_map_of_mem h.mem_all)

/-- The first character of a word tells that it shows no need. -/
theorem not_mem_tellingWords {w : String} {c : Char} (h : w.toList.head? = some c)
    (hc : some c ∉ [some 'r', some 'N', some 'I']) : w ∉ tellingWords := by
  have htelling : ∀ k ∈ tellingWords, k.toList.head? ∈ [some 'r', some 'N', some 'I'] := by decide
  intro hw
  exact hc (h ▸ htelling w hw)

namespace Name

variable {n : Name}

theorem not_mem_of_isValue (h : n.isValue = true) : n.toText ∉ tellingWords := by
  cases n with
  | var x => exact not_mem_tellingWords (c := 'v') (by simp [toText]) (by decide)
  | argument x => exact not_mem_tellingWords (c := 'a') (by simp [toText]) (by decide)
  | result | scratch => decide
  | function | helper | library | inner | main => cases h

theorem not_mem_of_isFunction (h : n.isFunction = true) : n.toText ∉ tellingWords := by
  cases n with
  | function f => exact not_mem_tellingWords (c := 'f') (by simp [toText]) (by decide)
  | main => decide
  | var | argument | helper | library | result | scratch | inner => cases h

/-- Of what can be called only the routines have telling names. -/
theorem not_mem_of_isCallee (h : n.isCallee = true) (hn : ∀ k, n ≠ .helper k) : n.toText ∉ tellingWords := by
  cases n with
  | helper k => exact absurd rfl (hn k)
  | library item => cases item <;> decide
  | function | main => exact not_mem_of_isFunction h
  | var | argument | result | scratch | inner => cases h

end Name

/-- The token is one that stands around expressions and tells nothing. -/
def Token.isFrame : Token → Bool
  | .word w => decide (w ∉ tellingWords)
  | .op o => o = .mul
  | .other s => s = ";"
  | .int .. | .assign | .comma | .openParen | .closeParen | .openBracket | .closeBracket | .openBrace | .closeBrace => true
  | .float _ | .text _ | .char _ => false

/-- The expressions with no others in them. -/
def Expr.isLeaf : Expr → Bool
  | .name _ | .long _ | .double _ | .text _ | .size _ | .nul | .buffer _ | .sizeOf _ | .room _ | .addressOf _ => true
  | .binary .. | .assign .. | .call .. | .first _ | .toLong _ => false

/-- The expressions that are written with frame around one other expression. -/
def Expr.isWrapping : Expr → Bool
  | .assign .. | .first _ | .toLong _ => true
  | .binary .. | .call .. => false
  | .name _ | .long _ | .double _ | .text _ | .size _ | .nul | .buffer _ | .sizeOf _ | .room _ | .addressOf _ => false

theorem Expr.subs_of_isLeaf {e : Expr} (h : e.isLeaf = true) : e.subs = [e] := by
  cases e <;> first | rfl | cases h

/-- The relation between tokens and expressions goes along with the ways in which code is put together. -/
structure Reading (R : List Token → List Expr → Prop) : Prop where
  frame : ∀ {ts}, (∀ t ∈ ts, t.isFrame = true) → R ts []
  append : ∀ {ts us es fs}, R ts es → R us fs → R (ts ++ us) (es ++ fs)
  leaf : ∀ {e : Expr}, e.isLeaf = true → e.isNamed = true → R e.tokens [e]
  binary : ∀ {ts us es fs} (op : BinOp) (l r : Expr), R ts es → R us fs →
    R (ts ++ .op op :: us) (.binary op l r :: (es ++ fs))
  wrap : ∀ {ts es} {e : Expr}, e.isWrapping = true → R ts es → R ts (e :: es)
  call : ∀ {f : Name} {args : List Expr}, f.isCallee = true →
    R (separated (Expr.tokensAll args)) (Expr.subsAll args) → R (Expr.call f args).tokens (.call f args :: Expr.subsAll args)

namespace Reading

variable {R : List Token → List Expr → Prop} {ts us : List Token} {es fs : List Expr}

/-- Tokens that tell nothing in front. -/
theorem before (hR : Reading R) (h : R ts es) (us : List Token) (hus : ∀ t ∈ us, t.isFrame = true) : R (us ++ ts) es :=
  hR.append (hR.frame hus) h

/-- Tokens that tell nothing behind. -/
theorem behind (hR : Reading R) (h : R ts es) (us : List Token) (hus : ∀ t ∈ us, t.isFrame = true) :
    R (ts ++ us) es := by
  have happend := hR.append h (hR.frame hus)
  rwa [List.append_nil] at happend

/-! ### Expressions -/

theorem parens (hR : Reading R) (h : R ts es) : R (.openParen :: (ts ++ [.closeParen])) es :=
  hR.before (hR.behind h [.closeParen] (by decide)) [.openParen] (by decide)

theorem enclose (hR : Reading R) {e : Expr} (h : R ts es) : R (e.enclose ts) es := by
  unfold Expr.enclose
  split
  · exact hR.parens h
  · exact h

theorem isFrame_of_isValue {n : Name} (h : n.isValue = true) : (Token.word n.toText).isFrame = true :=
  decide_eq_true (n.not_mem_of_isValue h)

mutual

/-- **A reading holds of every expression.** -/
theorem expr (hR : Reading R) : (e : Expr) → e.isNamed = true → R e.tokens e.subs
  | .name _, h | .sizeOf _, h | .room _, h | .addressOf _, h => hR.leaf rfl h
  | .long _, _ | .double _, _ | .text _, _ | .size _, _ | .nul, _ | .buffer _, _ => hR.leaf rfl rfl
  | .binary op l r, h => by
    obtain ⟨hl, hr⟩ := Bool.and_eq_true_iff.1 h
    exact hR.binary op l r (hR.enclose (expr hR l hl)) (hR.enclose (expr hR r hr))
  | .assign n e, h => by
    obtain ⟨hn, he⟩ := Bool.and_eq_true_iff.1 h
    refine hR.wrap rfl (hR.before (expr hR e he) [.word n.toText, .assign] ?_)
    exact List.forall_mem_cons.2 ⟨isFrame_of_isValue hn, by decide⟩
  | .call f args, h => by
    obtain ⟨hf, hargs⟩ := Bool.and_eq_true_iff.1 h
    exact hR.call hf (exprs hR args hargs)
  | .first e, h => hR.wrap rfl (hR.behind (hR.enclose (expr hR e h)) _ (by decide))
  | .toLong e, h =>
    hR.wrap rfl (hR.before (hR.enclose (expr hR e h)) [.openParen, .word "long", .word "long", .closeParen] (by decide))

theorem exprs (hR : Reading R) :
    (es : List Expr) → Expr.areNamed es = true → R (separated (Expr.tokensAll es)) (Expr.subsAll es)
  | [], _ => hR.frame nofun
  | [e], h => by
    have he := expr hR e (Bool.and_eq_true_iff.1 h).1
    rwa [Expr.subsAll, Expr.subsAll, List.append_nil]
  | e :: e' :: es, h => by
    obtain ⟨he, hes⟩ := Bool.and_eq_true_iff.1 h
    exact hR.append (expr hR e he) (hR.before (exprs hR (e' :: es) hes) [.comma] (by decide))

end

/-! ### Statements and functions -/

/-- A piece of code on a line of its own. -/
theorem semicolon (hR : Reading R) (h : R ts es) : R (ts ++ [.other ";"]) es := hR.behind h _ (by decide)

theorem declaration (hR : Reading R) {w : String} (hw : (Token.word w).isFrame = true) (ty : DeclTy) :
    R (ty.tokens ++ [.word w]) [] := by
  refine hR.frame (List.forall_mem_append.2 ⟨?_, List.forall_mem_singleton.2 hw⟩)
  cases ty <;> decide

/-- A condition in front of a scope. -/
theorem condition (hR : Reading R) {w : String} (hw : (Token.word w).isFrame = true) (h : R ts es) :
    R (.word w :: .openParen :: (ts ++ [.closeParen]) ++ [.openBrace]) es :=
  hR.behind (hR.before (hR.parens h) [.word w] (List.forall_mem_singleton.2 hw)) [.openBrace] (by decide)

/-- A scope behind what opens it. -/
theorem scope (hR : Reading R) (h : R ts es) (h' : R us fs) : R (ts ++ us ++ [.closeBrace]) (es ++ fs) :=
  hR.behind (hR.append h h') _ (by decide)

mutual

/-- **A reading holds of every statement.** -/
theorem stmt (hR : Reading R) : (s : Stmt) → s.isNamed = true → R s.tokens s.subs
  | .expr e, h => hR.semicolon (hR.expr e h)
  | .ret e, h => hR.semicolon (hR.before (hR.expr e h) [.word "return"] (by decide))
  | .buffer n capacity, h => by
    refine hR.frame (List.forall_mem_append.2 ⟨?_, by decide⟩)
    refine List.forall_mem_cons.2 ⟨by decide, List.forall_mem_append.2 ⟨?_, by simp [Token.isFrame]⟩⟩
    exact List.forall_mem_singleton.2 (isFrame_of_isValue h)
  | .declare ty n none, h => hR.semicolon (hR.declaration (isFrame_of_isValue h) ty)
  | .declare ty n (some e), h => by
    obtain ⟨hn, he⟩ := Bool.and_eq_true_iff.1 h
    have hvalue : R (.assign :: e.tokens) e.subs := hR.before (hR.expr e he) [.assign] (by decide)
    exact hR.semicolon (hR.append (hR.declaration (isFrame_of_isValue hn) ty) hvalue)
  | .store n i e, h => by
    obtain ⟨hn, h⟩ := Bool.and_eq_true_iff.1 h
    obtain ⟨hi, he⟩ := Bool.and_eq_true_iff.1 h
    have hindex : R ([.word n.toText] ++ .openBracket :: (i.tokens ++ [.closeBracket])) i.subs := by
      refine hR.before (hR.behind (hR.expr i hi) [.closeBracket] (by decide)) [.word n.toText, .openBracket] ?_
      exact List.forall_mem_cons.2 ⟨isFrame_of_isValue hn, by decide⟩
    have hvalue : R (.assign :: e.tokens) e.subs := hR.before (hR.expr e he) [.assign] (by decide)
    exact hR.semicolon (hR.append hindex hvalue)
  | .branch c a none, h => by
    obtain ⟨hc, ha⟩ := Bool.and_eq_true_iff.1 h
    exact hR.scope (hR.condition (by decide) (hR.expr c hc)) (stmts hR a ha)
  | .branch c a (some b), h => by
    obtain ⟨hc, h⟩ := Bool.and_eq_true_iff.1 h
    obtain ⟨ha, hb⟩ := Bool.and_eq_true_iff.1 h
    have helse : R [.closeBrace, .word "else", .openBrace] [] := hR.frame (by decide)
    have hif := hR.append (hR.condition (w := "if") (by decide) (hR.expr c hc)) (stmts hR a ha)
    exact hR.append hif (hR.scope helse (stmts hR b hb))
  | .loop c b, h => by
    obtain ⟨hc, hb⟩ := Bool.and_eq_true_iff.1 h
    exact hR.scope (hR.condition (by decide) (hR.expr c hc)) (stmts hR b hb)
  | .block b, h => hR.scope (hR.frame (by decide)) (stmts hR b h)

theorem stmts (hR : Reading R) : (ss : List Stmt) → Stmt.areNamed ss = true → R (Stmt.tokensAll ss) (Stmt.subsAll ss)
  | [], _ => hR.frame nofun
  | s :: ss, h => by
    obtain ⟨hs, hss⟩ := Bool.and_eq_true_iff.1 h
    exact hR.append (stmt hR s hs) (stmts hR ss hss)

end

/-- The parameters of a header. -/
theorem paramTokens (hR : Reading R) {params : List Param} (h : params.all (·.name.isValue) = true) :
    R (Function.paramTokens params) [] := by
  cases params with
  | nil => exact hR.frame (by decide)
  | cons p params =>
    change R (separated ((p :: params).map Param.tokens)) []
    induction params generalizing p with
    | nil => exact hR.declaration (isFrame_of_isValue (List.all_eq_true.1 h p List.mem_cons_self)) p.ty
    | cons q params ih =>
      obtain ⟨hp, hparams⟩ := List.forall_mem_cons.1 (List.all_eq_true.1 h)
      have hrest := ih q (List.all_eq_true.2 hparams)
      exact hR.append (hR.declaration (isFrame_of_isValue hp) p.ty) (hR.before hrest [.comma] (by decide))

/-- **A reading holds of every function.** -/
theorem function (hR : Reading R) {f : Function} (h : f.isNamed = true) : R f.tokens f.subs := by
  obtain ⟨hname, h⟩ := Bool.and_eq_true_iff.1 h
  obtain ⟨hparams, hbody⟩ := Bool.and_eq_true_iff.1 h
  have hword : (Token.word f.name.toText).isFrame = true := decide_eq_true (f.name.not_mem_of_isFunction hname)
  have hstatic : R (if f.isStatic then [.word "static"] else []) [] := by
    cases f.isStatic with
    | false => exact hR.frame nofun
    | true => exact hR.frame (by decide)
  have hheader := hR.append (hR.append hstatic (hR.declaration hword f.returns)) (hR.parens (hR.paramTokens hparams))
  exact hR.scope (hR.behind hheader [.openBrace] (by decide)) (hR.stmts f.body hbody)

end Reading

end ImpC.C
