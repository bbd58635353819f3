import ImpC.Proofs.C.Demand
import ImpC.Proofs.C.Reading

/-!
# What a text shows of the needs of its code

The needs of a piece of code can be read off its text. A routine is called where its name stands in front of an opening
parenthesis, outside of string literals, and a constant of `math.h` is a word of its own. `Shows ts ds` says that the tokens
`ts` show the needs `ds` in this way: what is needed is called, and no routine or constant is named that is not needed.

The tokens of code show the needs of the expressions in it (`reading_shows`), and with them the text does, from a function
(`Function.shownLines`) to all the code of a program (`Program.shownLines`).

All this is about code in which names stand where they belong (`Function.isNamed`). A name of a variable or of a function
never shows a need, because of the letters in front of it (`not_mem_tellingWords`).
-/

namespace ImpC.C

/-! ### Tokens and needs -/

/-- The routine is called: its name stands in front of an opening parenthesis. -/
def Helper.CalledIn (h : Helper) (ts : List Token) : Prop := [.word h.name, .openParen] <:+: ts

/-- The token shows no need. -/
def Token.isPlain : Token → Bool
  | .word w => decide (w ∉ tellingWords)
  | _ => true

/-- The tokens show exactly these needs. -/
structure Shows (ts : List Token) (ds : List Demand) : Prop where
  /-- What is needed is called. -/
  calledIn : ∀ h, .helper h ∈ ds → h.CalledIn ts
  /-- No routine is named that is not needed. -/
  helper : ∀ h : Helper, .word h.name ∈ ts → .helper h ∈ ds
  constant : .constant ∈ ds ↔ ∃ w ∈ mathConstants, .word w ∈ ts

variable {ts us : List Token} {ds es : List Demand} {w : String}

theorem shows_of_isPlain (h : ∀ t ∈ ts, t.isPlain = true) : Shows ts [] := by
  have hwords : ∀ w ∈ tellingWords, .word w ∉ ts := by
    intro w hw hmem
    exact absurd hw (of_decide_eq_true (h _ hmem))
  refine ⟨nofun, fun k hk => absurd hk (hwords _ (name_mem_tellingWords k)), ⟨nofun, ?_⟩⟩
  rintro ⟨w, hw, hmem⟩
  exact absurd hmem (hwords w (List.mem_append_right _ hw))

/-- Side by side, tokens show the needs of both. -/
theorem Shows.append (h : Shows ts ds) (h' : Shows us es) : Shows (ts ++ us) (ds ++ es) := by
  refine ⟨fun k hk => ?_, fun k hk => ?_, ?_⟩
  · obtain hk | hk := List.mem_append.1 hk
    · exact (h.calledIn k hk).trans (List.prefix_append ts us).isInfix
    · exact (h'.calledIn k hk).trans (List.suffix_append ts us).isInfix
  · obtain hk | hk := List.mem_append.1 hk
    · exact List.mem_append_left _ (h.helper k hk)
    · exact List.mem_append_right _ (h'.helper k hk)
  · rw [List.mem_append, h.constant, h'.constant]
    constructor
    · rintro (⟨w, hw, hmem⟩ | ⟨w, hw, hmem⟩)
      · exact ⟨w, hw, List.mem_append_left _ hmem⟩
      · exact ⟨w, hw, List.mem_append_right _ hmem⟩
    · rintro ⟨w, hw, hmem⟩
      obtain hmem | hmem := List.mem_append.1 hmem
      · exact .inl ⟨w, hw, hmem⟩
      · exact .inr ⟨w, hw, hmem⟩

theorem shows_nil : Shows [] [] := shows_of_isPlain (by simp)

theorem Shows.cons {t : Token} (h : Shows ts ds) (ht : t.isPlain = true) : Shows (t :: ts) ds := by
  have hplain : Shows [t] [] := shows_of_isPlain (by simpa using ht)
  exact hplain.append h

theorem Shows.concat {t : Token} (h : Shows ts ds) (ht : t.isPlain = true) : Shows (ts ++ [t]) ds := by
  have hplain : Shows [t] [] := shows_of_isPlain (by simpa using ht)
  have happend := h.append hplain
  rwa [List.append_nil] at happend

/-- The call of a routine. -/
theorem shows_call (h : Helper) : Shows [.word h.name, .openParen] [.helper h] := by
  refine ⟨fun k hk => ?_, fun k hk => ?_, ?_⟩
  · cases List.mem_singleton.1 hk
    exact List.infix_rfl
  · have hname : k.name = h.name := by simpa using hk
    have hsame : k = h := by
      revert hname
      cases k <;> cases h <;> decide
    exact List.mem_singleton.2 (congrArg Demand.helper hsame)
  · constructor
    · intro hmem
      cases List.mem_singleton.1 hmem
    · rintro ⟨w, hw, hmem⟩
      obtain rfl : w = h.name := by simpa using hmem
      revert hw
      cases h <;> decide

theorem shows_constant (hw : w ∈ mathConstants) : Shows [.word w] [.constant] := by
  refine ⟨fun k hk => ?_, fun k hk => ?_, ?_⟩
  · cases List.mem_singleton.1 hk
  · obtain rfl : k.name = w := by simpa using hk
    revert hw
    cases k <;> decide
  · exact iff_of_true (List.mem_singleton.2 rfl) ⟨w, hw, List.mem_singleton.2 rfl⟩

theorem isPlain_of_isFrame {t : Token} (h : t.isFrame = true) : t.isPlain = true := by
  cases t with
  | word w => exact h
  | _ => rfl

theorem shows_word (hw : w ∉ tellingWords) : Shows [.word w] [] :=
  shows_of_isPlain (List.forall_mem_singleton.2 (decide_eq_true hw))

/-- There are no words in an integer literal. -/
theorem shows_longTokens (v : Int64) : Shows (longTokens v) [] := by
  refine shows_of_isPlain ?_
  unfold longTokens
  split
  · decide
  · split <;> simp [Token.isPlain]

/-- A float literal needs `math.h` where it is one of the constants. -/
theorem shows_doubleTokens (x : Binary64) : Shows (doubleTokens x) (Expr.double x).demands := by
  have hsigned {t : Token} {ds : List Demand} (h : Shows [t] ds) :
      Shows (if x.negative then [.openParen, .op .sub, t, .closeParen] else [t]) ds := by
    split
    · exact ((h.concat rfl).cons rfl).cons rfl
    · exact h
  rw [Expr.demands_double, needsMath, doubleTokens]
  by_cases hnan : x.isNaN = true
  · rw [if_pos hnan, hnan]
    exact shows_constant (by decide)
  · rw [if_neg hnan, Bool.eq_false_iff.2 hnan, Bool.false_or]
    by_cases hinfinite : x.isInfinite = true
    · rw [hinfinite]
      exact hsigned (shows_constant (by decide))
    · rw [Bool.eq_false_iff.2 hinfinite]
      exact hsigned (shows_of_isPlain (List.forall_mem_singleton.2 rfl))

theorem shows_leaf {e : Expr} (he : e.isLeaf = true) (h : e.isNamed = true) : Shows e.tokens e.demands := by
  cases e with
  | name n => exact shows_word (n.not_mem_of_isValue h)
  | long v => exact shows_longTokens v
  | double x => exact shows_doubleTokens x
  | text | size | nul => exact shows_nil.cons rfl
  | buffer n =>
    refine shows_of_isPlain ?_
    simp only [Expr.tokens, List.forall_mem_cons]
    exact ⟨rfl, by decide, rfl, rfl, by decide⟩
  | sizeOf n => exact (shows_word (n.not_mem_of_isValue h)).cons (by decide)
  | room n =>
    have hword : (Token.word n.toText).isPlain = true := decide_eq_true (n.not_mem_of_isValue h)
    refine shows_of_isPlain ?_
    simp only [Expr.tokens, List.forall_mem_cons, hword]
    decide
  | addressOf n => exact (shows_word (n.not_mem_of_isValue h)).cons rfl
  | binary | assign | call | first | toLong => cases he

/-- A name in front of an opening parenthesis shows a need if it is that of a routine. -/
theorem shows_callee {f : Name} (h : f.isCallee = true) : Shows [.word f.toText, .openParen] f.demands := by
  cases f with
  | helper k => exact shows_call k
  | library item => exact (shows_word (Name.not_mem_of_isCallee h nofun)).concat rfl
  | function g => exact (shows_word (Name.not_mem_of_isCallee h nofun)).concat rfl
  | main => exact shows_of_isPlain (by decide)
  | var | argument | result | scratch | inner => cases h

/-- **The tokens of code show what the expressions in it need.** -/
theorem reading_shows : Reading fun ts es => Shows ts (es.filterMap Expr.demand?) where
  frame h := shows_of_isPlain fun t ht => isPlain_of_isFrame (h t ht)
  append h h' := by
    rw [List.filterMap_append]
    exact h.append h'
  leaf he h := by
    rw [← Expr.subs_of_isLeaf he]
    exact shows_leaf he h
  binary op l r h h' := by
    rw [List.filterMap_cons_none rfl, List.filterMap_append]
    exact h.append (h'.cons rfl)
  wrap {ts es e} he h := by
    have hnone : e.demand? = none := by cases e <;> first | rfl | cases he
    rwa [List.filterMap_cons_none hnone]
  call {f args} hf h := by
    change Shows _ (Expr.call f args).demands
    rw [Expr.demands_call]
    exact (shows_callee hf).append (h.concat rfl)

/-! ### The text of code -/

/-- The text is made of whole lines, and its tokens show these needs. -/
def ShownLines (text : String) (ds : List Demand) : Prop := ∃ ts, LexesLines text.toList ts ∧ Shows ts ds

theorem shownLines_nil : ShownLines "" [] := ⟨[], lexesLines_nil, shows_nil⟩

theorem ShownLines.append {a b : String} (h : ShownLines a ds) (h' : ShownLines b es) :
    ShownLines (a ++ b) (ds ++ es) := by
  obtain ⟨ts, hlexes, hshows⟩ := h
  obtain ⟨us, hlexes', hshows'⟩ := h'
  refine ⟨ts ++ us, ?_, hshows.append hshows'⟩
  rw [String.toList_append]
  exact hlexes.append hlexes'

variable {width : Nat}

/-- **The text of a function shows what its body needs.** -/
theorem Function.shownLines {f : Function} (h : f.isNamed = true) :
    ShownLines (f.toText width) (Stmt.demandsAll f.body) :=
  ⟨f.tokens, Function.lexesLines width h, reading_shows.function h⟩

namespace Program

variable {p : Program}

/-- The text of the functions and of `main`. -/
def codeText (width : Nat) (p : Program) : String :=
  String.join (p.functions.map (·.toText width ++ "\n")) ++ p.main.toText width

theorem shownLines_functions {fs : List Function} (h : ∀ f ∈ fs, f.isNamed = true) :
    ShownLines (String.join (fs.map (·.toText width ++ "\n"))) (fs.flatMap fun f => Stmt.demandsAll f.body) := by
  induction fs with
  | nil => exact shownLines_nil
  | cons f fs ih =>
    obtain ⟨hf, hfs⟩ := List.forall_mem_cons.1 h
    -- there is an empty line behind every function
    have hempty : ShownLines "\n" [] := ⟨[], Lexes.indented (l := ⟨0, ""⟩) lexes_nil 0, shows_nil⟩
    have hfirst : ShownLines (f.toText width ++ "\n") (Stmt.demandsAll f.body ++ []) :=
      (Function.shownLines hf).append hempty
    rw [List.append_nil] at hfirst
    rw [List.map_cons, String.join_cons, List.flatMap_cons]
    exact hfirst.append (ih hfs)

/-- **The text of the code of a program shows what the program needs.** -/
theorem shownLines (width : Nat) (hfunctions : ∀ f ∈ p.functions, f.isNamed = true) (hmain : p.main.isNamed = true) :
    ShownLines (p.codeText width) p.demands :=
  (shownLines_functions hfunctions).append (Function.shownLines hmain)

end Program

end ImpC.C
