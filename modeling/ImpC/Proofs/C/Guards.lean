import ImpC.Proofs.C.Reading
import ImpC.Proofs.C.Unquoted

/-!
# Divisions in code

Division and remainder may be written in two ways: with an operator of C, or as a call of one of the routines that look at
the divisor first. Both can be read off the tokens of a text. `divisionCalls` finds every place where one of these routines
is named and collects its arguments, token by token, up to the parenthesis that closes the call; nothing is taken for
granted of what is around it. An operator would be a token that is spelled with a division sign.

`Tells ts es` compares the tokens of code with the expressions in it: the calls that are found are those of the expressions
that call such a routine (`Expr.guard?`), in their order and with the tokens of their arguments; and unless one of the
expressions divides by an operator, no token is spelled with a division sign. It is a reading (`reading_tells`), so it holds
of all code.
-/

namespace ImpC.C

/-! ### Calls in tokens -/

/-- The routines that divide. -/
def Helper.isDivision : Helper → Bool
  | divInt | modInt | divFloat | modFloat => true
  | textCopy | textConcat => false

/-- The routine for division that is named by the word. -/
def divisionHelper? (w : String) : Option Helper := Helper.all.find? fun h => h.isDivision && h.name == w

/-- The arguments of a call, read behind its opening parenthesis: the tokens between the commas of the call, up to the
parenthesis that closes it. `depth` parentheses are open inside of the argument whose first tokens are `current`. -/
@[simp] def splitArguments (depth : Nat) (current : List Token) : List Token → Option (List (List Token))
  | [] => none
  | .closeParen :: ts =>
    match depth with
    | 0 => some [current]
    | depth + 1 => splitArguments depth (current ++ [.closeParen]) ts
  | .comma :: ts =>
    match depth with
    | 0 => (splitArguments 0 [] ts).map (current :: ·)
    | depth + 1 => splitArguments (depth + 1) (current ++ [.comma]) ts
  | .openParen :: ts => splitArguments (depth + 1) (current ++ [.openParen]) ts
  | t :: ts => splitArguments depth (current ++ [t]) ts

/-- The arguments that stand in parentheses behind a name, if there are any. -/
def argumentsBehind : List Token → Option (List (List Token))
  | .openParen :: ts => splitArguments 0 [] ts
  | _ => none

/-- All places where a routine for division is named, with the arguments that stand behind the name. -/
@[simp] def divisionCalls : List Token → List (Helper × Option (List (List Token)))
  | [] => []
  | .word w :: ts =>
    match divisionHelper? w with
    | some h => (h, argumentsBehind ts) :: divisionCalls ts
    | none => divisionCalls ts
  | _ :: ts => divisionCalls ts

theorem divisionHelper?_name (h : Helper) : divisionHelper? h.name = if h.isDivision then some h else none := by
  cases h <;> decide

theorem divisionHelper?_eq_none {w : String} (hw : w ∉ tellingWords) : divisionHelper? w = none := by
  refine List.find?_eq_none.2 fun h _ hmatch => hw ?_
  obtain rfl : h.name = w := by simpa using (Bool.and_eq_true_iff.1 hmatch).2
  exact name_mem_tellingWords h

/-! ### Arguments of calls -/

/-- The tokens close the parentheses that they open, and have commas only between these. -/
def Balanced (ts : List Token) : Prop :=
  ∀ depth current rest, splitArguments depth current (ts ++ rest) = splitArguments depth (current ++ ts) rest

variable {ts us : List Token}

theorem balanced_nil : Balanced [] := by
  intro depth current rest
  rw [List.nil_append, List.append_nil]

theorem Balanced.append (h : Balanced ts) (h' : Balanced us) : Balanced (ts ++ us) := by
  intro depth current rest
  rw [List.append_assoc, h, h', List.append_assoc]

/-- The tokens that end no argument and open no parenthesis. -/
def Token.isInner : Token → Bool
  | .openParen | .closeParen | .comma => false
  | _ => true

theorem balanced_of_isInner (h : ts.all Token.isInner = true) : Balanced ts := by
  induction ts with
  | nil => exact balanced_nil
  | cons t ts ih =>
    rw [List.all_cons, Bool.and_eq_true] at h
    obtain ⟨ht, hts⟩ := h
    have hsingle : Balanced [t] := by
      intro depth current rest
      cases t <;> first | rfl | cases ht
    exact hsingle.append (ih hts)

/-- In parentheses commas do not matter any more. -/
theorem balanced_parens (h : ∀ depth current rest,
    splitArguments (depth + 1) current (ts ++ rest) = splitArguments (depth + 1) (current ++ ts) rest) :
    Balanced (.openParen :: (ts ++ [.closeParen])) := by
  intro depth current rest
  calc splitArguments depth current (.openParen :: (ts ++ [.closeParen]) ++ rest)
      = splitArguments (depth + 1) (current ++ [.openParen]) (ts ++ (.closeParen :: rest)) := by
        rw [List.cons_append, List.append_assoc, splitArguments, List.cons_append, List.nil_append]
    _ = splitArguments (depth + 1) (current ++ [.openParen] ++ ts) (.closeParen :: rest) := h depth _ _
    _ = splitArguments depth (current ++ [.openParen] ++ ts ++ [.closeParen]) rest := rfl
    _ = splitArguments depth (current ++ .openParen :: (ts ++ [.closeParen])) rest := by
        rw [List.append_assoc, List.append_assoc, List.cons_append, List.nil_append]

theorem Balanced.parens (h : Balanced ts) : Balanced (.openParen :: (ts ++ [.closeParen])) :=
  balanced_parens fun depth => h (depth + 1)

/-- Arguments between commas in parentheses. -/
theorem Balanced.separated {tss : List (List Token)} (h : ∀ ts ∈ tss, Balanced ts) (depth : Nat)
    (current rest : List Token) :
    splitArguments (depth + 1) current (separated tss ++ rest) =
      splitArguments (depth + 1) (current ++ separated tss) rest := by
  induction tss generalizing current with
  | nil => rw [C.separated, List.nil_append, List.append_nil]
  | cons ts tss ih =>
    obtain ⟨hts, htss⟩ := List.forall_mem_cons.1 h
    cases tss with
    | nil => exact hts _ _ _
    | cons us tss =>
      rw [C.separated, List.append_assoc, hts, List.cons_append, splitArguments, ih htss]
      rw [List.append_assoc, List.append_assoc, List.cons_append, List.nil_append]

/-- The arguments that are written between the parentheses of a call. Nothing between them is one empty argument. -/
def writtenArguments : List (List Token) → List (List Token)
  | [] => [[]]
  | tss => tss

/-- **The arguments of a call are read as they are written.** -/
theorem splitArguments_separated {tss : List (List Token)} (h : ∀ ts ∈ tss, Balanced ts) (rest : List Token) :
    splitArguments 0 [] (separated tss ++ .closeParen :: rest) = some (writtenArguments tss) := by
  induction tss with
  | nil => rfl
  | cons ts tss ih =>
    obtain ⟨hts, htss⟩ := List.forall_mem_cons.1 h
    cases tss with
    | nil =>
      rw [separated, hts]
      rfl
    | cons us tss =>
      rw [separated, List.append_assoc, hts, List.cons_append, splitArguments, ih htss]
      rfl

/-! ### The tokens of expressions are balanced -/

namespace Expr

theorem balanced_enclose {e : Expr} (h : Balanced ts) : Balanced (e.enclose ts) := by
  unfold enclose
  split
  · exact h.parens
  · exact h

theorem balanced_longTokens (v : Int64) : Balanced (longTokens v) := by
  unfold longTokens
  split
  · have hinner : Balanced [.op .sub, .int 9223372036854775807 true, .op .sub, .int 1 false] :=
      balanced_of_isInner rfl
    exact hinner.parens
  · have hinner : Balanced [.op .sub, .int v.toInt.natAbs true] := balanced_of_isInner rfl
    split
    · exact hinner.parens
    · exact balanced_of_isInner rfl

theorem balanced_doubleTokens (x : Binary64) : Balanced (doubleTokens x) := by
  have hsigned {t : Token} (h : t.isInner = true) :
      Balanced (if x.negative then [.openParen, .op .sub, t, .closeParen] else [t]) := by
    have hall : [t].all Token.isInner = true := by rw [List.all_cons, h]; rfl
    have hinner : Balanced [.op .sub, t] := balanced_of_isInner hall
    split
    · exact hinner.parens
    · exact balanced_of_isInner hall
  unfold doubleTokens
  split
  · exact balanced_of_isInner rfl
  · refine hsigned ?_
    split <;> rfl

theorem balanced_buffer (n : Nat) : Balanced (Expr.buffer n).tokens := by
  have hinner : Balanced [.word "char", .openBracket, .int n false, .closeBracket] :=
    balanced_of_isInner rfl
  exact hinner.parens.append (balanced_of_isInner rfl)

theorem balanced_room (n : Name) : Balanced (Expr.room n).tokens := by
  have hinner : Balanced [.word n.toText] := balanced_of_isInner rfl
  have hsize : Balanced [.word "sizeof", .word n.toText, .op .sub, .word "strlen"] :=
    balanced_of_isInner rfl
  exact hsize.append (hinner.parens.append (balanced_of_isInner rfl))

mutual

/-- **An expression ends where its parentheses are closed.** -/
theorem balanced : (e : Expr) → Balanced e.tokens
  | name n | text n | size n | addressOf n | sizeOf n => balanced_of_isInner rfl
  | nul => balanced_of_isInner rfl
  | long v => balanced_longTokens v
  | double x => balanced_doubleTokens x
  | buffer n => balanced_buffer n
  | room n => balanced_room n
  | binary op l r => by
    have hop : Balanced [.op op] := balanced_of_isInner rfl
    exact (balanced_enclose (balanced l)).append (hop.append (balanced_enclose (balanced r)))
  | assign n e => by
    have htarget : Balanced [.word n.toText, .assign] := balanced_of_isInner rfl
    exact htarget.append (balanced e)
  | call f args => by
    have hcallee : Balanced [.word f.toText] := balanced_of_isInner rfl
    exact hcallee.append (balanced_parens (Balanced.separated (balancedAll args)))
  | first e => (balanced_enclose (balanced e)).append (balanced_of_isInner rfl)
  | toLong e => by
    have hcast : Balanced [.word "long", .word "long"] := balanced_of_isInner rfl
    exact hcast.parens.append (balanced_enclose (balanced e))

theorem balancedAll : (es : List Expr) → ∀ ts ∈ tokensAll es, Balanced ts
  | [] => nofun
  | e :: es => List.forall_mem_cons.2 ⟨balanced e, balancedAll es⟩

end

end Expr

/-! ### What the tokens tell about the expressions -/

/-- The call of a routine for division, by the routine and the arguments. -/
def Expr.guard? : Expr → Option (Helper × List Expr)
  | .call (.helper h) args => if h.isDivision then some (h, args) else none
  | _ => none

/-- The expression is a division or a remainder by an operator of C. -/
def Expr.dividesNatively : Expr → Bool
  | .binary op _ _ => op.isGuarded
  | _ => false

/-- The expression divides, in one way or the other. -/
def Expr.isDivision : Expr → Bool
  | .call (.helper h) _ => h.isDivision
  | .binary op _ _ => op.isGuarded
  | _ => false

theorem Expr.filterMap_guard? (es : List Expr) : (es.filter isDivision).filterMap guard? = es.filterMap guard? := by
  rw [List.filterMap_filter]
  congr
  funext e
  split
  · rfl
  · next h =>
    unfold guard?
    split
    · exact (if_neg h).symm
    · rfl

/-- The call as it is found in the tokens. -/
def guardCall (g : Helper × List Expr) : Helper × Option (List (List Token)) :=
  (g.1, some (writtenArguments (Expr.tokensAll g.2)))

/-- The tokens are those of code with these expressions in it, as far as divisions go. -/
structure Tells (ts : List Token) (es : List Expr) : Prop where
  /-- Whatever follows, the calls that are found are those of the expressions. -/
  calls : ∀ rest, divisionCalls (ts ++ rest) = (es.filterMap Expr.guard?).map guardCall ++ divisionCalls rest
  /-- Division signs stand for operators. -/
  signs : (∀ e ∈ es, e.dividesNatively = false) → ∀ t ∈ ts, t.spellsDivision = false

/-- The token neither names a routine for division nor is spelled with a division sign. -/
def Token.isQuiet : Token → Bool
  | .word w => (divisionHelper? w).isNone
  | t => !t.spellsDivision

theorem Token.spellsDivision_of_isQuiet {t : Token} (h : t.isQuiet = true) : t.spellsDivision = false := by
  cases t with
  | op | other | char => simpa [isQuiet] using h
  | _ => rfl

variable {es fs : List Expr} {e : Expr}

theorem divisionCalls_cons_of_isQuiet {t : Token} (h : t.isQuiet = true) :
    divisionCalls (t :: ts) = divisionCalls ts := by
  cases t with
  | word w => rw [divisionCalls, Option.isNone_iff_eq_none.1 h]
  | _ => rfl

theorem tells_of_isQuiet (h : ∀ t ∈ ts, t.isQuiet = true) : Tells ts [] := by
  refine ⟨fun rest => ?_, fun _ t ht => Token.spellsDivision_of_isQuiet (h t ht)⟩
  induction ts with
  | nil => rfl
  | cons t ts ih =>
    obtain ⟨ht, hts⟩ := List.forall_mem_cons.1 h
    rw [List.cons_append, divisionCalls_cons_of_isQuiet ht, ih hts]

theorem Tells.append (h : Tells ts es) (h' : Tells us fs) : Tells (ts ++ us) (es ++ fs) := by
  constructor
  · intro rest
    rw [List.append_assoc, h.calls, h'.calls, List.filterMap_append, List.map_append, List.append_assoc]
  · intro hnative
    obtain ⟨hes, hfs⟩ := List.forall_mem_append.1 hnative
    exact List.forall_mem_append.2 ⟨h.signs hes, h'.signs hfs⟩

/-- An expression that is no call of a routine for division adds nothing. -/
theorem Tells.cons (h : Tells ts es) (he : e.guard? = none) : Tells ts (e :: es) := by
  constructor
  · intro rest
    rw [h.calls, List.filterMap_cons_none he]
  · intro hnative
    exact h.signs fun d hd => hnative d (List.mem_cons_of_mem e hd)

theorem isQuiet_word {w : String} (hw : w ∉ tellingWords) : (Token.word w).isQuiet = true :=
  Option.isNone_iff_eq_none.2 (divisionHelper?_eq_none hw)

theorem isQuiet_of_isFrame {t : Token} (h : t.isFrame = true) : t.isQuiet = true := by
  cases t with
  | word w => exact isQuiet_word (of_decide_eq_true h)
  | op o =>
    obtain rfl : o = .mul := of_decide_eq_true h
    rfl
  | other s =>
    obtain rfl : s = ";" := of_decide_eq_true h
    decide
  | float | text | char => cases h
  | int | assign | comma | openParen | closeParen | openBracket | closeBracket | openBrace | closeBrace => rfl

theorem isQuiet_longTokens (v : Int64) : ∀ t ∈ longTokens v, t.isQuiet = true := by
  unfold longTokens
  split
  · decide
  · split <;> simp [Token.isQuiet, Token.spellsDivision, BinOp.isGuarded]

theorem isQuiet_doubleTokens (x : Binary64) : ∀ t ∈ doubleTokens x, t.isQuiet = true := by
  have hsigned {t : Token} (h : t.isQuiet = true) :
      ∀ u ∈ if x.negative then [.openParen, .op .sub, t, .closeParen] else [t], u.isQuiet = true := by
    split
    · exact List.forall_mem_cons.2 ⟨rfl, List.forall_mem_cons.2 ⟨rfl, List.forall_mem_cons.2 ⟨h, by decide⟩⟩⟩
    · exact List.forall_mem_singleton.2 h
  unfold doubleTokens
  split
  · decide
  · refine hsigned ?_
    split
    · decide
    · rfl

theorem isQuiet_of_isLeaf (he : e.isLeaf = true) (h : e.isNamed = true) : ∀ t ∈ e.tokens, t.isQuiet = true := by
  have hname {n : Name} (hn : n.isValue = true) : (Token.word n.toText).isQuiet = true :=
    isQuiet_word (n.not_mem_of_isValue hn)
  cases e with
  | name n => exact List.forall_mem_singleton.2 (hname h)
  | long v => exact isQuiet_longTokens v
  | double x => exact isQuiet_doubleTokens x
  | text | size => exact List.forall_mem_singleton.2 rfl
  | nul => decide
  | buffer n =>
    simp only [Expr.tokens, List.forall_mem_cons]
    exact ⟨rfl, by decide, rfl, rfl, by decide⟩
  | sizeOf n => exact List.forall_mem_cons.2 ⟨by decide, List.forall_mem_singleton.2 (hname h)⟩
  | room n =>
    simp only [Expr.tokens, List.forall_mem_cons, hname h]
    decide
  | addressOf n => exact List.forall_mem_cons.2 ⟨by decide, List.forall_mem_singleton.2 (hname h)⟩
  | binary | assign | call | first | toLong => cases he

/-- The call of a routine for division is found, and then the calls in its arguments. -/
theorem tells_guard {h : Helper} {args : List Expr} (hdivision : h.isDivision = true)
    (hargs : Tells (separated (Expr.tokensAll args)) (Expr.subsAll args)) :
    Tells (Expr.call (.helper h) args).tokens (.call (.helper h) args :: Expr.subsAll args) := by
  have hguard : (Expr.call (.helper h) args).guard? = some (h, args) := if_pos hdivision
  have hhelper : divisionHelper? h.name = some h := by rw [divisionHelper?_name, if_pos hdivision]
  constructor
  · intro rest
    have htokens : (Expr.call (.helper h) args).tokens ++ rest =
        .word h.name :: .openParen :: (separated (Expr.tokensAll args) ++ .closeParen :: rest) := by
      simp [Expr.tokens, Name.toText]
    rw [htokens, divisionCalls, hhelper, List.filterMap_cons_some hguard]
    change (h, splitArguments 0 [] (separated (Expr.tokensAll args) ++ .closeParen :: rest)) ::
      divisionCalls (separated (Expr.tokensAll args) ++ .closeParen :: rest) = _
    rw [splitArguments_separated (Expr.balancedAll args), hargs.calls]
    rfl
  · intro hnative
    have hinner := hargs.signs fun d hd => hnative d (List.mem_cons_of_mem _ hd)
    refine List.forall_mem_cons.2 ⟨rfl, List.forall_mem_cons.2 ⟨rfl, ?_⟩⟩
    exact List.forall_mem_append.2 ⟨hinner, by decide⟩

/-- **The tokens of code tell where it divides.** -/
theorem reading_tells : Reading Tells where
  frame h := tells_of_isQuiet fun t ht => isQuiet_of_isFrame (h t ht)
  append := Tells.append
  leaf {e} he h := by
    have hguard : e.guard? = none := by cases e <;> first | rfl | cases he
    exact (tells_of_isQuiet (isQuiet_of_isLeaf he h)).cons hguard
  binary op l r h h' := by
    constructor
    · intro rest
      rw [List.append_assoc, h.calls, List.filterMap_cons_none rfl, List.filterMap_append, List.map_append,
        List.append_assoc]
      exact congrArg _ (h'.calls rest)
    · intro hnative
      obtain ⟨hop, hparts⟩ := List.forall_mem_cons.1 hnative
      obtain ⟨hes, hfs⟩ := List.forall_mem_append.1 hparts
      exact List.forall_mem_append.2 ⟨h.signs hes, List.forall_mem_cons.2 ⟨hop, h'.signs hfs⟩⟩
  wrap {ts es e} he h := by
    have hguard : e.guard? = none := by cases e <;> first | rfl | cases he
    exact h.cons hguard
  call {f args} hf h := by
    have hplain (hword : (Token.word f.toText).isQuiet = true) (hguard : (Expr.call f args).guard? = none) :
        Tells (Expr.call f args).tokens (.call f args :: Expr.subsAll args) := by
      have hopen : Tells [.word f.toText, .openParen] [] :=
        tells_of_isQuiet (List.forall_mem_cons.2 ⟨hword, by decide⟩)
      have hclose : Tells [.closeParen] [] := tells_of_isQuiet (by decide)
      have happend := hopen.append (h.append hclose)
      rw [List.nil_append, List.append_nil] at happend
      exact happend.cons hguard
    cases f with
    | helper k =>
      cases hdivision : k.isDivision with
      | true => exact tells_guard hdivision h
      | false =>
        refine hplain ?_ (if_neg (by rw [hdivision]; decide))
        refine Option.isNone_iff_eq_none.2 ?_
        rw [Name.toText, divisionHelper?_name, hdivision]
        rfl
    | library item => exact hplain (isQuiet_word (Name.not_mem_of_isCallee hf (by simp))) rfl
    | function g => exact hplain (isQuiet_word (Name.not_mem_of_isCallee hf (by simp))) rfl
    | main => exact hplain (by decide) rfl
    | var | argument | result | scratch | inner => cases hf

end ImpC.C
