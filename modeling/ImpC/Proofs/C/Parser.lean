import ImpC.Proofs.C.Grammar

/-!
# The grammar is unambiguous

Tokens form an expression in one way at the most (`Derives.unique`). The proof is a parser that goes through the levels by
recursive descent: whatever the grammar derives, the parser finds (`Derives.parsed`), and a function finds only one tree.

What the parser does behind an expression depends on what follows there. So what is carried through a derivation is not
that the parser stops behind its tokens, but where it goes on (`Parsed`): at a binary level with the operators of that level
that may follow, at the postfix level with the suffixes. An expression in parentheses is followed by something that ends
every level.

The parser takes any expression for the target of an assignment, and leaves it to the grammar to be more particular.
-/

namespace ImpC.C

/-! ### The parser -/

/-- The type at the front. -/
def typeName? : List Token → Option (TypeName × List Token)
  | .word w :: .word v :: rest => if w = "long" ∧ v = "long" then some (.longLong, rest) else none
  | .word w :: .openBracket :: .int n false :: .closeBracket :: rest =>
    if w = "char" then some (.chars n, rest) else none
  | _ => none

/-- The type in parentheses at the front. -/
def opening? : List Token → Option (TypeName × List Token)
  | .openParen :: rest =>
    match typeName? rest with
    | some (ty, .closeParen :: rest) => some (ty, rest)
    | _ => none
  | _ => none

/-- What is looked for. -/
inductive Search where
  /-- An expression of the level. -/
  | expression (L : Level)
  /-- The operators of the level behind an operand. -/
  | operations (L : Level) (t : Tree)
  /-- The suffixes behind an expression. -/
  | suffixes (t : Tree)
  /-- The arguments of a call behind those found already, and the suffixes behind the parenthesis that closes them. -/
  | arguments (f : Tree) (found : List Tree)

/-- Finds what is looked for at the front. -/
def Search.parse (search : Search) (s : List Token) : Option (Tree × List Token) :=
  match search with
  | .expression .assignment => do
    let (t, s) ← Search.expression .equality |>.parse s
    match s with
    -- an assignment binds to the right
    | .assign :: s => do
      let (v, s) ← Search.expression .assignment |>.parse s
      some (.assign t v, s)
    | s => some (t, s)
  | .expression .equality => do
    let (t, s) ← Search.expression .relational |>.parse s
    Search.operations .equality t |>.parse s
  | .expression .relational => do
    let (t, s) ← Search.expression .additive |>.parse s
    Search.operations .relational t |>.parse s
  | .expression .additive => do
    let (t, s) ← Search.expression .multiplicative |>.parse s
    Search.operations .additive t |>.parse s
  | .expression .multiplicative => do
    let (t, s) ← Search.expression .cast |>.parse s
    Search.operations .multiplicative t |>.parse s
  | .expression .cast =>
    match opening? s with
    -- with a brace behind it, the type belongs to a compound literal
    | none | some (_, .openBrace :: _) => Search.expression .unary |>.parse s
    | some (ty, s) => do
      let (t, s) ← Search.expression .cast |>.parse s
      some (.cast ty t, s)
  | .expression .unary =>
    match s with
    | .op .sub :: s => do
      let (t, s) ← Search.expression .cast |>.parse s
      some (.neg t, s)
    | s => Search.expression .suffixed |>.parse s
  | .expression .suffixed =>
    match opening? s with
    | some (ty, .openBrace :: s) => do
      let (t, s) ← Search.expression .assignment |>.parse s
      match s with
      | .closeBrace :: s => Search.suffixes (.compound ty t) |>.parse s
      | _ => none
    | _ => do
      let (t, s) ← Search.expression .primary |>.parse s
      Search.suffixes t |>.parse s
  | .expression .primary =>
    match s with
    | .word w :: s => if w ∈ keywords then none else some (.ident w, s)
    | .int n isLong :: s => some (.int n isLong, s)
    | .float x :: s => some (.float x, s)
    | .text x :: s => some (.text x, s)
    | .char c :: s => some (.char c, s)
    | .openParen :: s => do
      let (t, s) ← Search.expression .assignment |>.parse s
      match s with
      | .closeParen :: s => some (t, s)
      | _ => none
    | _ => none
  | .operations L t =>
    match s with
    | .op op :: s =>
      if operatorLevel op = L then do
        -- the operand on the right is one of the next level, and the operation a left operand in turn
        let (u, s) ← Search.expression L.next |>.parse s
        Search.operations L (.binary op t u) |>.parse s
      else some (t, .op op :: s)
    | s => some (t, s)
  | .suffixes t =>
    match s with
    | .openBracket :: s => do
      let (i, s) ← Search.expression .assignment |>.parse s
      match s with
      | .closeBracket :: s => Search.suffixes (.index t i) |>.parse s
      | _ => none
    | .openParen :: .closeParen :: s => Search.suffixes (.call t []) |>.parse s
    | .openParen :: s => Search.arguments t [] |>.parse s
    | s => some (t, s)
  | .arguments f found => do
    let (t, s) ← Search.expression .assignment |>.parse s
    match s with
    | .comma :: s => Search.arguments f (found ++ [t]) |>.parse s
    | .closeParen :: s => Search.suffixes (.call f (found ++ [t])) |>.parse s
    | _ => none
partial_fixpoint

/-! ### Where expressions start -/

/-- Whether an expression may start with the token. -/
def Token.starts : Token → Bool
  | .word w => w ∉ keywords
  | .int .. | .float _ | .text _ | .char _ | .openParen | .op .sub => true
  | _ => false

variable {L : Level} {ts : List Token} {t : Tree}

theorem Derives.starts (h : Derives L ts t) : ∃ a rest, ts = a :: rest ∧ a.starts = true := by
  induction h with
  | ident hw => exact ⟨_, _, rfl, decide_eq_true hw⟩
  | int | float | text | char | parens | compound | neg | cast => exact ⟨_, _, rfl, rfl⟩
  | index _ _ ih _ | call _ _ _ ih _ | operation _ _ _ ih _ | assign _ _ ih _ =>
    obtain ⟨a, rest, rfl, ha⟩ := ih
    exact ⟨a, _, rfl, ha⟩
  | next _ ih => exact ih

theorem typeName?_eq_none {a : Token} (ha : a.starts = true) (rest : List Token) : typeName? (a :: rest) = none := by
  cases a with
  | word w =>
    -- types are spelled with keywords
    have hw : w ∉ keywords := of_decide_eq_true ha
    have hlong : w ≠ "long" := by
      rintro rfl
      exact hw (by decide)
    have hchar : w ≠ "char" := by
      rintro rfl
      exact hw (by decide)
    unfold typeName?
    split
    · next heq =>
      cases heq
      exact if_neg fun h => hlong h.1
    · next heq =>
      cases heq
      exact if_neg hchar
    · rfl
  | _ => rfl

theorem typeName?_tokens (ty : TypeName) (rest : List Token) : typeName? (ty.tokens ++ rest) = some (ty, rest) := by
  cases ty <;> simp [typeName?, TypeName.tokens]

theorem opening?_tokens (ty : TypeName) (rest : List Token) :
    opening? (.openParen :: (ty.tokens ++ .closeParen :: rest)) = some (ty, rest) := by
  rw [opening?, typeName?_tokens]

/-- How an expression of the level does not start. A minus sign starts no postfix expression, and a type in parentheses
starts a cast unless it is that of a compound literal, behind which a brace stands. -/
structure Opens (L : Level) (s : List Token) : Prop where
  minus : Level.suffixed.rank ≤ L.rank → ∀ rest, s ≠ .op .sub :: rest
  brace : Level.unary.rank ≤ L.rank → ∀ ty rest, opening? s = some (ty, rest) → ∃ rest', rest = .openBrace :: rest'
  primary : L = .primary → opening? s = none

theorem Opens.of_opening?_eq_none {s : List Token} (h : opening? s = none) (hminus : ∀ rest, s ≠ .op .sub :: rest) :
    Opens L s := by
  refine ⟨fun _ => hminus, fun _ ty rest h' => ?_, fun _ => h⟩
  rw [h] at h'
  cases h'

theorem Opens.of_rank_lt {s : List Token} (h : L.rank < Level.unary.rank) : Opens L s := by
  refine ⟨fun h' => ?_, fun h' => ?_, ?_⟩
  · exact absurd (Nat.lt_of_lt_of_le h (Nat.le_trans (by decide) h')) (Nat.lt_irrefl _)
  · exact absurd (Nat.lt_of_lt_of_le h h') (Nat.lt_irrefl _)
  · rintro rfl
    exact absurd h (by decide)

theorem Level.rank_le_rank_next (L : Level) : L.rank ≤ L.next.rank := by cases L <;> decide

theorem rank_operatorLevel (op : BinOp) :
    Level.assignment.rank < (operatorLevel op).rank ∧ (operatorLevel op).rank < Level.cast.rank := by
  cases op <;> decide

theorem Derives.opens (h : Derives L ts t) (rest : List Token) : Opens L (ts ++ rest) := by
  induction h generalizing rest with
  | ident | int | float | text | char => exact .of_opening?_eq_none rfl nofun
  | parens h =>
    -- what stands in the parentheses is an expression, and no expression starts like a type
    refine .of_opening?_eq_none ?_ nofun
    obtain ⟨a, ts, rfl, ha⟩ := h.starts
    rw [List.cons_append, List.append_assoc, List.cons_append, opening?, typeName?_eq_none ha]
  | compound ty h =>
    refine ⟨fun _ => nofun, fun _ ty' rest' h' => ?_, nofun⟩
    rw [List.cons_append, List.append_assoc, List.cons_append, opening?_tokens] at h'
    cases h'
    exact ⟨_, rfl⟩
  | index _ _ ih | call _ _ _ ih =>
    rw [List.append_assoc]
    exact ih _
  | neg => exact ⟨nofun, fun _ _ _ => nofun, nofun⟩
  | cast | assign => exact .of_rank_lt (by decide)
  | operation hop =>
    subst hop
    exact .of_rank_lt (Nat.lt_trans (rank_operatorLevel _).2 (by decide))
  | next _ ih =>
    -- a looser level is asked for less
    obtain ⟨hminus, hbrace, hprimary⟩ := ih rest
    refine ⟨fun h => hminus (Nat.le_trans h (Level.rank_le_rank_next _)),
      fun h => hbrace (Nat.le_trans h (Level.rank_le_rank_next _)), ?_⟩
    rintro rfl
    exact hprimary rfl

/-! ### What may follow -/

/-- Nothing follows that would go on with an expression of the level: no suffix, and no operator that binds tighter. -/
structure Follows (L : Level) (s : List Token) : Prop where
  bracket : ∀ rest, s ≠ .openBracket :: rest
  paren : ∀ rest, s ≠ .openParen :: rest
  operator : ∀ op rest, s = .op op :: rest → (operatorLevel op).rank ≤ L.rank

/-- What follows ends every expression. -/
def Ends (s : List Token) : Prop := ∀ a ∈ s.head?, a = .closeParen ∨ a = .closeBracket ∨ a = .closeBrace ∨ a = .comma

theorem ends_cons {a : Token} (ha : a = .closeParen ∨ a = .closeBracket ∨ a = .closeBrace ∨ a = .comma)
    (rest : List Token) : Ends (a :: rest) := by
  intro b hb
  cases hb
  exact ha

theorem Ends.follows {s : List Token} (h : Ends s) (L : Level) : Follows L s := by
  refine ⟨?_, ?_, ?_⟩
  · rintro rest rfl
    simpa using h _ rfl
  · rintro rest rfl
    simpa using h _ rfl
  · rintro op rest rfl
    simpa using h _ rfl

theorem Ends.ne_assign {s : List Token} (h : Ends s) (rest : List Token) : s ≠ .assign :: rest := by
  rintro rfl
  simpa using h _ rfl

theorem Follows.tighten {M : Level} {s : List Token} (h : Follows L s) (hLM : L.rank ≤ M.rank) : Follows M s :=
  ⟨h.bracket, h.paren, fun op rest heq => Nat.le_trans (h.operator op rest heq) hLM⟩

/-- No operator binds tighter than the multiplicative ones. -/
theorem Follows.tight {M : Level} {s : List Token} (h : Follows L s) (hM : Level.multiplicative.rank ≤ M.rank) :
    Follows M s :=
  ⟨h.bracket, h.paren, fun op _ _ => Nat.le_trans (Nat.le_of_lt_succ (rank_operatorLevel op).2) hM⟩

theorem follows_op {op : BinOp} (rest : List Token) (h : (operatorLevel op).rank ≤ L.rank) :
    Follows L (.op op :: rest) := by
  refine ⟨nofun, nofun, fun op' rest' heq => ?_⟩
  cases heq
  exact h

theorem follows_assign (rest : List Token) : Follows L (.assign :: rest) := ⟨nofun, nofun, nofun⟩

theorem Follows.suffixes_eq {s : List Token} (h : Follows L s) (t : Tree) : (Search.suffixes t).parse s = some (t, s) := by
  rw [Search.parse.eq_def]
  dsimp only
  split
  · next rest => exact absurd rfl (h.bracket rest)
  · next rest => exact absurd rfl (h.paren (.closeParen :: rest))
  · next rest _ => exact absurd rfl (h.paren rest)
  · rfl

/-- Where only looser operators follow, there is no operation to go on with. -/
theorem Follows.operations_eq {M : Level} {s : List Token} (h : Follows L s) (hLM : L.rank < M.rank) (t : Tree) :
    (Search.operations M t).parse s = some (t, s) := by
  rw [Search.parse.eq_def]
  dsimp only
  split
  · next op rest =>
    refine if_neg ?_
    rintro rfl
    exact absurd hLM (Nat.not_lt.2 (h.operator op rest rfl))
  · rfl

/-- There are no operators of the tighter levels. -/
theorem operations_eq_self (hL : Level.cast.rank ≤ L.rank) (t : Tree) (s : List Token) :
    (Search.operations L t).parse s = some (t, s) := by
  rw [Search.parse.eq_def]
  dsimp only
  split
  · refine if_neg ?_
    rintro rfl
    exact absurd (rank_operatorLevel _).2 (Nat.not_lt.2 hL)
  · rfl

/-! ### The parser finds what the grammar derives -/

/-- Where the parser is when it has gone through the tokens of an expression of the level. -/
def Parsed (L : Level) (ts : List Token) (t : Tree) : Prop :=
  ∀ rest, match L with
    | .primary => (Search.expression .primary).parse (ts ++ rest) = some (t, rest)
    | .suffixed => (Search.expression .suffixed).parse (ts ++ rest) = (Search.suffixes t).parse rest
    | .assignment => Ends rest → (Search.expression .assignment).parse (ts ++ rest) = some (t, rest)
    | L => Follows L rest → (Search.expression L).parse (ts ++ rest) = (Search.operations L t).parse rest

theorem parsed_iff (h : Level.assignment.rank < L.rank) (h' : L.rank < Level.suffixed.rank) :
    Parsed L ts t ↔ ∀ rest, Follows L rest → (Search.expression L).parse (ts ++ rest) = (Search.operations L t).parse rest := by
  cases L with
  | assignment => exact absurd h (by decide)
  | suffixed | primary => exact absurd h' (by decide)
  | equality | relational | additive | multiplicative | cast | unary => exact Iff.rfl

/-- From casts on, no operator goes on with an expression. -/
theorem Parsed.parse_eq {M : Level} {rest : List Token} (h : Parsed L ts t) (hL : Level.cast.rank ≤ L.rank)
    (hL' : L.rank < Level.suffixed.rank) (hfollows : Follows M rest) :
    (Search.expression L).parse (ts ++ rest) = some (t, rest) := by
  have htight : Follows L rest := hfollows.tight (Nat.le_trans (by decide) hL)
  rw [parsed_iff (Nat.lt_of_lt_of_le (by decide) hL) hL'] at h
  rw [h rest htight, operations_eq_self hL]

/-- At a binary level the parser looks for an operand of the next level, and then for operators. -/
theorem parse_eq_bind (h : Level.assignment.rank < L.rank) (h' : L.rank < Level.cast.rank) (s : List Token) :
    (Search.expression L).parse s = ((Search.expression L.next).parse s).bind fun x => (Search.operations L x.1).parse x.2 := by
  cases L with
  | assignment => exact absurd h (by decide)
  | cast | unary | suffixed | primary => exact absurd h' (by decide)
  | equality | relational | additive | multiplicative =>
    rw [Search.parse]
    rfl

/-- What the parser does at a level with an expression of the next one. -/
theorem Parsed.next (h : Derives L.next ts t) (ih : Parsed L.next ts t) : Parsed L ts t := by
  intro rest
  have hopens := h.opens rest
  cases L with
  | assignment =>
    intro hends
    -- no operator follows, and no equals sign either
    have hparse : (Search.expression .equality).parse (ts ++ rest) = some (t, rest) :=
      (ih rest (hends.follows .equality)).trans ((hends.follows .assignment).operations_eq (by decide) t)
    rw [Search.parse, hparse]
    dsimp only [Option.bind_eq_bind, Option.bind_some]
    split
    · exact absurd rfl (hends.ne_assign _)
    · rfl
  | equality | relational | additive | multiplicative =>
    intro hfollows
    -- the tighter level ends here, and this level goes on with what follows
    have hparse := (ih rest (hfollows.tighten (by decide))).trans (hfollows.operations_eq (by decide) t)
    exact (parse_eq_bind (by decide) (by decide) _).trans (congrArg (Option.bind · _) hparse)
  | cast =>
    intro hfollows
    have hparse : (Search.expression .unary).parse (ts ++ rest) = some (t, rest) :=
      ih.parse_eq (by decide) (by decide) hfollows
    rw [Search.parse, operations_eq_self (by decide)]
    split
    · exact hparse
    · exact hparse
    · next ty s hne heq =>
      obtain ⟨rest', rfl⟩ := hopens.brace (by decide) ty s heq
      exact (hne _ rfl).elim
  | unary =>
    intro hfollows
    have hparse : (Search.expression .suffixed).parse (ts ++ rest) = some (t, rest) :=
      (ih rest).trans (hfollows.suffixes_eq t)
    rw [operations_eq_self (by decide)]
    unfold Search.parse
    dsimp only
    split
    · next heq => exact absurd heq (hopens.minus (by decide) _)
    · exact hparse
  | suffixed =>
    have hparse : (Search.expression .primary).parse (ts ++ rest) = some (t, rest) := ih rest
    dsimp only
    rw [Search.parse.eq_def (.expression .suffixed)]
    dsimp only
    rw [hopens.primary rfl, hparse]
    rfl
  | primary => exact ih rest

/-- The arguments of a call are found one by one. -/
theorem arguments_eq (found : List Tree) {args : List (List Token × Tree)} (hne : args ≠ [])
    (h : ∀ a ∈ args, Parsed .assignment a.1 a.2) (rest : List Token) :
    (Search.arguments t found).parse (separated (args.map (·.1)) ++ .closeParen :: rest) =
      (Search.suffixes (.call t (found ++ args.map (·.2)))).parse rest := by
  induction args generalizing found with
  | nil => exact absurd rfl hne
  | cons a args ih =>
    obtain ⟨ha, h⟩ := List.forall_mem_cons.1 h
    cases args with
    | nil =>
      have hparse := ha (.closeParen :: rest) (ends_cons (by simp) _)
      rw [Search.parse.eq_def (.arguments t found)]
      change ((Search.expression .assignment).parse (a.1 ++ .closeParen :: rest)).bind _ = _
      rw [hparse]
      rfl
    | cons b args =>
      have htail := ih (found ++ [a.2]) (by simp) h
      rw [List.map_cons, List.map_cons, separated, List.append_assoc, List.cons_append, ← List.map_cons]
      have hparse := ha (.comma :: (separated ((b :: args).map (·.1)) ++ .closeParen :: rest)) (ends_cons (by simp) _)
      rw [Search.parse.eq_def (.arguments t found)]
      dsimp only
      rw [hparse]
      dsimp only [Option.bind_eq_bind, Option.bind_some]
      rw [htail, List.append_assoc]
      rfl

theorem Parsed.parens (h : Parsed .assignment ts t) : Parsed .primary (.openParen :: (ts ++ [.closeParen])) t := by
  intro rest
  have hinner : (Search.expression .assignment).parse (ts ++ .closeParen :: rest) = some (t, .closeParen :: rest) :=
    h _ (ends_cons (by simp) _)
  change (Search.expression .primary).parse (.openParen :: (ts ++ [.closeParen]) ++ rest) = _
  rw [List.cons_append, List.append_assoc, List.cons_append, List.nil_append, Search.parse, hinner]
  rfl

theorem Parsed.compound (ty : TypeName) (h : Parsed .assignment ts t) :
    Parsed .suffixed (.openParen :: (ty.tokens ++ .closeParen :: .openBrace :: (ts ++ [.closeBrace])))
      (.compound ty t) := by
  intro rest
  have hinner : (Search.expression .assignment).parse (ts ++ .closeBrace :: rest) = some (t, .closeBrace :: rest) :=
    h _ (ends_cons (by simp) _)
  have htokens : .openParen :: (ty.tokens ++ .closeParen :: .openBrace :: (ts ++ [.closeBrace])) ++ rest =
      .openParen :: (ty.tokens ++ .closeParen :: .openBrace :: (ts ++ .closeBrace :: rest)) := by simp
  change (Search.expression .suffixed).parse _ = _
  rw [htokens, Search.parse.eq_def (.expression .suffixed)]
  dsimp only
  rw [opening?_tokens]
  dsimp only
  rw [hinner]
  rfl

theorem Parsed.index {us : List Token} {i : Tree} (h : Parsed .suffixed ts t) (hi : Parsed .assignment us i) :
    Parsed .suffixed (ts ++ .openBracket :: (us ++ [.closeBracket])) (.index t i) := by
  intro rest
  have hinner : (Search.expression .assignment).parse (us ++ .closeBracket :: rest) = some (i, .closeBracket :: rest) :=
    hi _ (ends_cons (by simp) _)
  change (Search.expression .suffixed).parse _ = _
  rw [List.append_assoc, List.cons_append, List.append_assoc, List.cons_append, List.nil_append]
  refine (h _).trans ?_
  rw [Search.parse, hinner]
  rfl

theorem Parsed.call {args : List (List Token × Tree)} (h : Parsed .suffixed ts t)
    (hstarts : ∀ a ∈ args, ∃ b us, a.1 = b :: us ∧ b.starts = true)
    (hargs : ∀ a ∈ args, Parsed .assignment a.1 a.2) :
    Parsed .suffixed (ts ++ .openParen :: (separated (args.map (·.1)) ++ [.closeParen]))
      (.call t (args.map (·.2))) := by
  intro rest
  change (Search.expression .suffixed).parse _ = _
  rw [List.append_assoc, List.cons_append, List.append_assoc, List.cons_append, List.nil_append]
  refine (h _).trans ?_
  cases args with
  -- without arguments the parenthesis is closed at once
  | nil => exact Search.parse.eq_def (.suffixes t) _
  | cons a args =>
    have hinner := arguments_eq (t := t) [] (by simp) hargs rest
    -- the first argument starts with something else than the closing parenthesis
    obtain ⟨b, us, hb, hbstarts⟩ := hstarts a List.mem_cons_self
    obtain ⟨vs, hvs⟩ : ∃ vs, separated ((a :: args).map (·.1)) ++ .closeParen :: rest = b :: vs := by
      cases args with
      | nil => exact ⟨us ++ .closeParen :: rest, by simp [separated, hb]⟩
      | cons c args => exact ⟨_, by rw [List.map_cons, List.map_cons, separated, hb]; rfl⟩
    rw [hvs] at hinner ⊢
    rw [Search.parse.eq_def (.suffixes t)]
    dsimp only
    split
    · next heq => cases heq
    · next heq =>
      cases heq
      cases hbstarts
    · next heq =>
      cases heq
      exact hinner
    · next hne => exact absurd rfl (hne _)

theorem Parsed.neg (h : Parsed .cast ts t) : Parsed .unary (.op .sub :: ts) (.neg t) := by
  intro rest hfollows
  have hoperand : (Search.expression .cast).parse (ts ++ rest) = some (t, rest) := h.parse_eq (by decide) (by decide) hfollows
  rw [operations_eq_self (by decide), List.cons_append, Search.parse, hoperand]
  rfl

theorem Parsed.cast (ty : TypeName) (h : Parsed .cast ts t) (hstarts : ∃ b us, ts = b :: us ∧ b.starts = true) :
    Parsed .cast (.openParen :: (ty.tokens ++ .closeParen :: ts)) (.cast ty t) := by
  intro rest hfollows
  have hoperand : (Search.expression .cast).parse (ts ++ rest) = some (t, rest) := h.parse_eq (by decide) (by decide) hfollows
  rw [operations_eq_self (by decide), List.cons_append, List.append_assoc, List.cons_append]
  obtain ⟨b, us, rfl, hb⟩ := hstarts
  unfold Search.parse
  dsimp only
  rw [opening?_tokens]
  split
  · next heq => cases heq
  · next heq =>
    -- this would be a compound literal
    cases heq
    cases hb
  · next heq =>
    cases heq
    rw [hoperand]
    rfl

theorem Parsed.operation {op : BinOp} {us : List Token} {u : Tree} (hop : operatorLevel op = L) (hl : Parsed L ts t)
    (hr : Parsed L.next us u) : Parsed L (ts ++ .op op :: us) (.binary op t u) := by
  subst hop
  obtain ⟨hassignment, hcast⟩ := rank_operatorLevel op
  have hnext : (operatorLevel op).rank < (operatorLevel op).next.rank ∧
      (operatorLevel op).next.rank < Level.suffixed.rank := by
    cases op <;> decide
  rw [parsed_iff hassignment (Nat.lt_trans hcast (by decide))] at hl ⊢
  rw [parsed_iff (Nat.lt_trans hassignment hnext.1) hnext.2] at hr
  intro rest hfollows
  have hright : (Search.expression (operatorLevel op).next).parse (us ++ rest) = some (u, rest) :=
    (hr rest (hfollows.tighten (Nat.le_of_lt hnext.1))).trans (hfollows.operations_eq hnext.1 u)
  -- behind the left operand the parser goes on at the same level, and there it finds the operator
  rw [List.append_assoc, List.cons_append, hl _ (follows_op _ (Nat.le_refl _)), Search.parse, if_pos rfl, hright]
  rfl

theorem Parsed.assign {us : List Token} {v : Tree} (h : Parsed .equality ts t) (hv : Parsed .assignment us v) :
    Parsed .assignment (ts ++ .assign :: us) (.assign t v) := by
  intro rest hends
  have htarget : (Search.expression .equality).parse (ts ++ .assign :: (us ++ rest)) = some (t, .assign :: (us ++ rest)) :=
    (h _ (follows_assign _)).trans ((follows_assign (L := .assignment) _).operations_eq (by decide) t)
  have hvalue : (Search.expression .assignment).parse (us ++ rest) = some (v, rest) := hv rest hends
  rw [List.append_assoc, List.cons_append, Search.parse, htarget]
  dsimp only [Option.bind_eq_bind, Option.bind_some]
  rw [hvalue]
  rfl

/-- **The parser finds what the grammar derives.** The induction is over the derivation. -/
theorem Derives.parsed (h : Derives L ts t) : Parsed L ts t := by
  induction h with
  | ident hw =>
    intro rest
    change (Search.expression .primary).parse (_ :: rest) = _
    rw [Search.parse, if_neg hw]
  | int | float | text | char =>
    intro rest
    change (Search.expression .primary).parse (_ :: rest) = _
    rw [Search.parse]
  | parens _ ih => exact ih.parens
  | compound ty _ ih => exact ih.compound ty
  | index _ _ iht ihi => exact iht.index ihi
  | call _ args hargs ihf ihargs => exact ihf.call (fun a ha => (hargs a ha).starts) ihargs
  | neg _ ih => exact ih.neg
  | cast ty h ih => exact ih.cast ty h.starts
  | operation hop _ _ ihl ihr => exact ihl.operation hop ihr
  | assign ht _ iht ihv =>
    -- the parser looks for a target of any level, and a unary expression is one of all looser levels
    have htarget : Derives .equality _ _ ∧ Parsed .equality _ _ :=
      Level.loosen (P := fun L => Derives L _ _ ∧ Parsed L _ _) (fun _ h => ⟨.next h.1, .next h.1 h.2⟩) (by decide)
        ⟨ht, iht⟩
    exact htarget.2.assign ihv
  | next h ih => exact ih.next h

/-- **The grammar is unambiguous.** -/
theorem Derives.unique {M : Level} {u : Tree} (h : Derives L ts t) (h' : Derives M ts u) : t = u := by
  -- both are expressions of the loosest level, and nothing follows them
  have hends : Ends [] := nofun
  have hassignment : Derives .assignment ts t := h.loosen (Nat.zero_le _)
  have hassignment' : Derives .assignment ts u := h'.loosen (Nat.zero_le _)
  have hparse : (Search.expression .assignment).parse (ts ++ []) = some (t, []) := hassignment.parsed [] hends
  have hparse' : (Search.expression .assignment).parse (ts ++ []) = some (u, []) := hassignment'.parsed [] hends
  rw [hparse] at hparse'
  cases hparse'
  rfl

end ImpC.C
