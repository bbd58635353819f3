import ImpC.Compile
import ImpC.Proofs.Report.Rows

/-!
# Coloured and plain reports say the same

A coloured report shows each piece between an escape sequence that sets its colour and one that resets it.
`withoutSequences` deletes the escape sequences of a text, as a reader without a terminal would: each is the escape
character, a bracket, numbers with semicolons between them, and an `m`. What is left of a coloured layout is the plain one,
provided that no piece brings along an escape character of its own (`Layout.withoutSequences_coloured`).

Where the pieces come from is seen on the rows of the report, which hold the characters of all pieces. The rows are made
of fixed marks, numbers, the title, the message, the file and a line of the source. So reports against a source without
escape characters, under a file name and about names without them, say the same with and without colours
(`CompileError.coloured_report_agrees`), in each of their forms.
-/

namespace ImpC

namespace Report

/-! ### Deleting escape sequences -/

/-- The characters between the opening of an escape sequence for colours and its end. -/
def isParameter (c : Char) : Bool := c.isDigit || c == ';'

/-- What is behind the escape sequence at the front of a text, if there is one. -/
def sequence? : List Char → Option (List Char)
  | '\x1b' :: '[' :: cs =>
    match cs.dropWhile isParameter with
    | 'm' :: rest => some rest
    | _ => none
  | _ => none

theorem length_lt_of_sequence? {cs rest : List Char} (h : sequence? cs = some rest) : rest.length < cs.length := by
  unfold sequence? at h
  split at h
  · next ds =>
    split at h
    · next rest' hdrop =>
      cases h
      have hle := (List.dropWhile_sublist (l := ds) isParameter).length_le
      rw [hdrop] at hle
      simp only [List.length_cons] at hle ⊢
      omega
    · cases h
  · cases h

/-- A text without its escape sequences. -/
def withoutSequences (cs : List Char) : List Char :=
  match cs with
  | [] => []
  | c :: ds =>
    match h : sequence? (c :: ds) with
    | some rest =>
      have := length_lt_of_sequence? h
      withoutSequences rest
    | none => c :: withoutSequences ds
termination_by cs.length
decreasing_by
  · exact this
  · exact Nat.lt_succ_self ds.length

theorem withoutSequences_of_sequence? {cs rest : List Char} (h : sequence? cs = some rest) :
    withoutSequences cs = withoutSequences rest := by
  cases cs with
  | nil => cases h
  | cons c cs =>
    rw [withoutSequences]
    split
    · next heq => rw [Option.some.inj (h.symm.trans heq)]
    · next heq => cases h.symm.trans heq

/-- A text without escape characters in front of another stays as it is. -/
theorem withoutSequences_append {cs : List Char} (h : '\x1b' ∉ cs) (ds : List Char) :
    withoutSequences (cs ++ ds) = cs ++ withoutSequences ds := by
  induction cs with
  | nil => rfl
  | cons c cs ih =>
    obtain ⟨hc, hcs⟩ := not_or.1 (mt List.mem_cons.2 h)
    have hnone : sequence? (c :: (cs ++ ds)) = none := by
      unfold sequence?
      split
      · next heq => exact absurd (List.cons.inj heq).1.symm hc
      · rfl
    rw [List.cons_append, withoutSequences]
    split
    · next heq => cases hnone.symm.trans heq
    · rw [ih hcs]
      rfl

/-- An escape sequence in front of a text is deleted. -/
theorem withoutSequences_sequence (ps : List Char) (hps : ∀ c ∈ ps, isParameter c = true) (ds : List Char) :
    withoutSequences ('\x1b' :: '[' :: (ps ++ 'm' :: ds)) = withoutSequences ds := by
  refine withoutSequences_of_sequence? ?_
  have hdrop : (ps ++ 'm' :: ds).dropWhile isParameter = 'm' :: ds := by
    rw [List.dropWhile_append_of_pos hps]
    rfl
  rw [sequence?, hdrop]
  rfl

/-! ### Coloured layouts -/

/-- The parameters of a colour are numbers with semicolons between them. -/
theorem isParameter_of_colour? {style : Style} {colour : String} (h : style.colour? = some colour) :
    ∀ c ∈ colour.toList, isParameter c = true := by
  refine List.all_eq_true.1 ?_
  cases style <;> cases h <;> decide

/-- A piece without its escape sequences is its text. -/
theorem Piece.withoutSequences_coloured {p : Piece} (h : '\x1b' ∉ p.text.toList) (ds : List Char) :
    withoutSequences (p.coloured.toList ++ ds) = p.text.toList ++ withoutSequences ds := by
  unfold coloured
  cases hcolour : p.style.colour? with
  | none => exact withoutSequences_append h ds
  | some colour =>
    have hreset : withoutSequences ("\x1b[0m".toList ++ ds) = withoutSequences ds :=
      withoutSequences_sequence ['0'] (List.forall_mem_singleton.2 rfl) ds
    have hset := withoutSequences_sequence _ (isParameter_of_colour? hcolour) (p.text.toList ++ ("\x1b[0m".toList ++ ds))
    rw [withoutSequences_append h, hreset] at hset
    simpa using hset

/-- No piece brings along an escape character. -/
def Layout.IsClean (layout : Layout) : Prop := ∀ line ∈ layout, ∀ p ∈ line, '\x1b' ∉ p.text.toList

theorem withoutSequences_join_coloured {line : List Piece} (h : ∀ p ∈ line, '\x1b' ∉ p.text.toList) (ds : List Char) :
    withoutSequences ((String.join (line.map Piece.coloured)).toList ++ ds) =
      (lineText line).toList ++ withoutSequences ds := by
  induction line with
  | nil => rfl
  | cons p line ih =>
    obtain ⟨hp, hline⟩ := List.forall_mem_cons.1 h
    rw [List.map_cons, String.join_cons, lineText_cons, String.toList_append, String.toList_append, List.append_assoc,
      List.append_assoc, p.withoutSequences_coloured hp, ih hline]

theorem Layout.render_cons (write : Piece → String) (line : List Piece) (layout : Layout) :
    Layout.render write (line :: layout) = String.join (line.map write) ++ ("\n" ++ Layout.render write layout) := by
  rw [render, List.map_cons, String.join_cons, String.append_assoc]
  rfl

/-- **A coloured layout without its escape sequences is the plain one.** -/
theorem Layout.withoutSequences_coloured {layout : Layout} (h : layout.IsClean) :
    withoutSequences layout.coloured.toList = layout.plain.toList := by
  induction layout with
  | nil =>
    rw [withoutSequences.eq_def]
    rfl
  | cons line layout ih =>
    obtain ⟨hline, hlayout⟩ := List.forall_mem_cons.1 h
    have hplain : Layout.plain (line :: layout) = lineText line ++ ("\n" ++ Layout.plain layout) := render_cons _ _ _
    have hcoloured : Layout.coloured (line :: layout) =
        String.join (line.map Piece.coloured) ++ ("\n" ++ Layout.coloured layout) := render_cons _ _ _
    have hfeed : '\x1b' ∉ "\n".toList := by decide
    rw [hplain, hcoloured]
    simp only [String.toList_append]
    rw [withoutSequences_join_coloured hline, withoutSequences_append hfeed, ih hlayout]

/-! ### Reports without escape characters -/

/-- Nothing that a report is about has an escape character in it. -/
structure IsClean (r : Report) : Prop where
  title : '\x1b' ∉ r.title.toList
  message : '\x1b' ∉ r.message.toList
  file : '\x1b' ∉ r.file.toList
  source : '\x1b' ∉ r.source.toList

theorem not_mem_blanks (n : Nat) : '\x1b' ∉ (blanks n).toList := by
  simp [blanks]

theorem not_mem_toDigits (n : Nat) : '\x1b' ∉ Nat.toDigits 10 n := by
  intro h
  exact absurd (Nat.isDigit_of_mem_toDigits (by decide) (by decide) h) (by decide)

theorem not_mem_marginText (width : Nat) : '\x1b' ∉ (marginText width).toList := by
  simp [marginText, not_mem_blanks]

theorem not_mem_stretch {mark : Char × Char} (hfirst : mark.1 ≠ '\x1b') (hrest : mark.2 ≠ '\x1b') (width : Nat) :
    '\x1b' ∉ stretch mark width := by
  cases width with
  | zero => exact List.not_mem_nil
  | succ width => simp [stretch, hfirst.symm, hrest.symm]

theorem Span.not_mem_row (s : Span) (line : List Char) {mark : Nat → Char × Char}
    (h : ∀ column, (mark column).1 ≠ '\x1b' ∧ (mark column).2 ≠ '\x1b') : '\x1b' ∉ (s.row line mark).toList := by
  rw [row, String.toList_ofList, List.mem_flatMap]
  rintro ⟨column, -, hmem⟩
  exact not_mem_stretch (h column).1 (h column).2 _ hmem

theorem Span.underlineMark_ne (s : Span) (column : Nat) :
    (s.underlineMark column).1 ≠ '\x1b' ∧ (s.underlineMark column).2 ≠ '\x1b' := by
  unfold underlineMark
  repeat' split
  all_goals decide

theorem Span.connectorMark_ne (s : Span) (column : Nat) :
    (s.connectorMark column).1 ≠ '\x1b' ∧ (s.connectorMark column).2 ≠ '\x1b' := by
  unfold connectorMark
  repeat' split
  all_goals decide

/-- A character is drawn as itself or as spaces. -/
theorem eq_of_mem_drawn {column : Nat} {c d : Char} (h : d ∈ drawn column c) : d = c ∨ d = ' ' := by
  unfold drawn at h
  split at h
  · exact .inr (List.mem_replicate.1 h).2
  · split at h
    · exact .inr (List.mem_singleton.1 h)
    · exact .inl (List.mem_singleton.1 h)

theorem not_mem_expanded {line : List Char} (h : '\x1b' ∉ line) : '\x1b' ∉ expanded (trimEnd line) := by
  rw [expanded, List.mem_flatMap]
  rintro ⟨⟨c, column⟩, hc, hmem⟩
  obtain rfl | hspace := eq_of_mem_drawn hmem
  · have htrim := List.fst_mem_of_mem_zipIdx hc
    rw [trimEnd, List.mem_reverse] at htrim
    exact h (List.mem_reverse.1 ((List.dropWhile_suffix _).subset htrim))
  · exact absurd hspace (by decide)

theorem text_mem_of_mem_numberLines {line : SourceLine} {number offset : Nat} {lines : List (List Char)}
    (h : line ∈ numberLines number offset lines) : line.text ∈ lines := by
  induction lines generalizing number offset with
  | nil => exact absurd h List.not_mem_nil
  | cons first rest ih =>
    obtain rfl | h := List.mem_cons.1 h
    · exact List.mem_cons_self
    · exact List.mem_cons_of_mem _ (ih h)

/-- The characters of the line that is shown are characters of the source. -/
theorem text_subset_of_lineAt? {source : String} {position : Nat} {line : SourceLine}
    (h : lineAt? source position = some line) : line.text ⊆ source.toList := by
  intro c hc
  have hmem := (List.mem_filter.1 (List.mem_of_getLast? h)).1
  rw [← Text.flatten_splitLines source.toList]
  exact List.mem_flatten.2 ⟨line.text, text_mem_of_mem_numberLines hmem, hc⟩

theorem not_mem_bodyRows {r : Report} (hr : r.IsClean) {line : SourceLine} (hline : '\x1b' ∉ line.text) :
    ∀ row ∈ r.bodyRows line, '\x1b' ∉ row.toList := by
  unfold bodyRows
  simp only [List.forall_mem_append, List.forall_mem_cons, List.not_mem_nil, false_implies, implies_true, and_true]
  refine ⟨⟨⟨?_, ?_⟩, ?_⟩, ?_⟩
  · simp [not_mem_blanks, not_mem_toDigits, hr.file]
  · simp [not_mem_blanks]
  · split
    · simp [excerptRows, not_mem_toDigits, not_mem_expanded hline, not_mem_marginText, hr.message,
        Span.not_mem_row _ _ (Span.underlineMark_ne _), Span.not_mem_row _ _ (Span.connectorMark_ne _)]
    · simp [not_mem_marginText]
  · simp

/-- The rows of a report have no escape characters unless it is about one. -/
theorem not_mem_rows {r : Report} (hr : r.IsClean) : ∀ row ∈ r.rows, '\x1b' ∉ row.toList := by
  refine List.forall_mem_cons.2 ⟨by simp [hr.title], ?_⟩
  split
  · next line hshown =>
    have hline : lineAt? r.source r.start = some line := (Option.ite_none_right_eq_some.1 hshown).2
    exact not_mem_bodyRows hr fun hmem => hr.source (text_subset_of_lineAt? hline hmem)
  · exact List.forall_mem_nil _

/-- The rows of a report hold the characters of all its pieces. -/
theorem IsClean.layout {r : Report} (hr : r.IsClean) : r.layout.IsClean := by
  intro line hline p hp hmem
  have hrow : lineText line ∈ r.rows := by
    rw [← map_lineText_layout]
    exact List.mem_map_of_mem hline
  refine not_mem_rows hr _ hrow ?_
  rw [lineText, String.toList_join, List.mem_flatMap]
  exact ⟨p.text, List.mem_map_of_mem hp, hmem⟩

end Report

/-! ### Reports of errors -/

/-- The texts that an error carries. -/
def BuildError.texts : BuildError → List String
  | undeclaredIdentifier t | assignMismatch t _ _ | notAnExpression t | invalidParameter t | unknownOperator t
  | undeclaredFunction t | argumentCount t _ _ | argumentMismatch t _ _ _ | redeclaration t => [t]
  | incompatibleOperands .. => []

/-- The texts that an error carries. -/
def EmitError.texts : EmitError → List String
  | unknownReadTarget t | unexpectedStatement t => [t]

/-- The texts that an error carries. -/
def CompileError.texts : CompileError → List String
  | build e => e.texts
  | emit e => e.texts

theorem Ty.not_mem_keyword (ty : Ty) : '\x1b' ∉ ty.keyword.toList := by cases ty <;> decide

theorem BinOp.not_mem_symbol (op : BinOp) : '\x1b' ∉ op.symbol.toList := by cases op <;> decide

theorem not_mem_append {a b : String} (ha : '\x1b' ∉ a.toList) (hb : '\x1b' ∉ b.toList) : '\x1b' ∉ (a ++ b).toList := by
  rw [String.toList_append, List.mem_append]
  exact not_or.2 ⟨ha, hb⟩

theorem not_mem_toString (n : Nat) : '\x1b' ∉ (toString n).toList := by
  rw [Nat.toString_eq_repr, Nat.toList_repr]
  exact Report.not_mem_toDigits n

theorem BuildError.not_mem_message {e : BuildError} (h : ∀ t ∈ e.texts, '\x1b' ∉ t.toList) :
    '\x1b' ∉ e.message.toList := by
  -- a message is fixed words with texts, types, operators and numbers between them
  cases e with
  | undeclaredIdentifier t | invalidParameter t | unknownOperator t | undeclaredFunction t | redeclaration t =>
    have ht : '\x1b' ∉ t.toList := h t List.mem_cons_self
    exact not_mem_append (not_mem_append (by decide) ht) (by decide)
  | notAnExpression t =>
    have ht : '\x1b' ∉ t.toList := h t List.mem_cons_self
    exact not_mem_append (by decide) ht
  | incompatibleOperands op left right =>
    refine not_mem_append (not_mem_append (not_mem_append (not_mem_append (not_mem_append (not_mem_append ?_
      op.not_mem_symbol) ?_) left.not_mem_keyword) ?_) right.not_mem_keyword) ?_ <;> decide
  | assignMismatch t expected found =>
    have ht : '\x1b' ∉ t.toList := h t List.mem_cons_self
    refine not_mem_append (not_mem_append (not_mem_append (not_mem_append (not_mem_append (not_mem_append ?_
      found.not_mem_keyword) ?_) ht) ?_) expected.not_mem_keyword) ?_ <;> decide
  | argumentCount t expected found =>
    have ht : '\x1b' ∉ t.toList := h t List.mem_cons_self
    refine not_mem_append (not_mem_append (not_mem_append (not_mem_append (not_mem_append ?_
      ht) ?_) (not_mem_toString expected)) ?_) (not_mem_toString found) <;> decide
  | argumentMismatch t position expected found =>
    have ht : '\x1b' ∉ t.toList := h t List.mem_cons_self
    refine not_mem_append (not_mem_append (not_mem_append (not_mem_append (not_mem_append (not_mem_append (not_mem_append
      (not_mem_append ?_ (not_mem_toString position)) ?_) ht) ?_) expected.not_mem_keyword) ?_) found.not_mem_keyword) ?_ <;>
      decide

theorem EmitError.not_mem_message {e : EmitError} (h : ∀ t ∈ e.texts, '\x1b' ∉ t.toList) :
    '\x1b' ∉ e.message.toList := by
  cases e with
  | unknownReadTarget t | unexpectedStatement t =>
    have ht : '\x1b' ∉ t.toList := h t List.mem_cons_self
    exact not_mem_append (not_mem_append (by decide) ht) (by decide)

namespace CompileError

variable {e : CompileError} {source file : String}

theorem isClean_report (hsource : '\x1b' ∉ source.toList) (hfile : '\x1b' ∉ file.toList)
    (he : ∀ t ∈ e.texts, '\x1b' ∉ t.toList) : (e.report source file).IsClean := by
  refine ⟨?_, ?_, hfile, hsource⟩
  · have htitles : '\x1b' ∉ "Type error".toList ∧ '\x1b' ∉ "Code generation error".toList := by decide
    cases e with
    | build e => exact htitles.1
    | emit e => exact htitles.2
  · cases e with
    | build e => exact BuildError.not_mem_message he
    | emit e => exact EmitError.not_mem_message he

/-- **The coloured and the plain report say the same.** For every error, source and file name without escape characters, the
coloured report without its escape sequences is the plain report, whichever form it has. The plain report is its rows, and
has no escape characters; the coloured one begins with the title in the colour of errors. -/
theorem coloured_report_agrees (hsource : '\x1b' ∉ source.toList) (hfile : '\x1b' ∉ file.toList)
    (he : ∀ t ∈ e.texts, '\x1b' ∉ t.toList) :
    Report.withoutSequences (e.report source file).colouredText.toList = (e.report source file).plainText.toList ∧
      (e.report source file).plainText = String.join ((e.report source file).rows.map (· ++ "\n")) ∧
      '\x1b' ∉ (e.report source file).plainText.toList ∧
      ("\x1b[31mError:\x1b[0m " ++ e.title ++ "\n").toList <+: (e.report source file).colouredText.toList := by
  have hclean : (e.report source file).IsClean := isClean_report hsource hfile he
  have hrows := (e.report source file).plainText_eq_join_rows
  refine ⟨Report.Layout.withoutSequences_coloured hclean.layout, hrows, ?_, ?_⟩
  · rw [hrows, String.toList_join, List.mem_flatMap]
    rintro ⟨_, hmap, hmem⟩
    obtain ⟨row, hrow, rfl⟩ := List.mem_map.1 hmap
    exact not_mem_append (Report.not_mem_rows hclean row hrow) (by decide) hmem
  · rw [Report.colouredText, Report.Layout.coloured, Report.layout, Report.Layout.render_cons]
    simp [Report.header, Report.plainPiece, Report.Piece.coloured, Report.Style.colour?, report]

/-- The report of a variable that is not declared. -/
def undeclared (source : String) : Report := (build (.undeclaredIdentifier "x")).report source "a"

/-- The three forms of a report agree: on a line with a tab and a wide character; with the label past the end of its line,
behind an accented letter; and with the label outside of the source, behind two of them. -/
theorem coloured_report_agrees_undeclared :
    ((undeclared "\tx = 好").rows.length = 7 ∧ (undeclared "é x").rows.length = 5 ∧ (undeclared "éé x").rows.length = 1) ∧
      Report.withoutSequences (undeclared "\tx = 好").colouredText.toList = (undeclared "\tx = 好").plainText.toList ∧
      Report.withoutSequences (undeclared "é x").colouredText.toList = (undeclared "é x").plainText.toList ∧
      Report.withoutSequences (undeclared "éé x").colouredText.toList = (undeclared "éé x").plainText.toList := by
  have hname : ∀ t ∈ texts (build (.undeclaredIdentifier "x")), '\x1b' ∉ t.toList :=
    List.forall_mem_singleton.2 (by decide)
  refine ⟨by decide +kernel, ?_, ?_, ?_⟩
  · exact (coloured_report_agrees (by decide) (by decide) hname).1
  · exact (coloured_report_agrees (by decide) (by decide) hname).1
  · exact (coloured_report_agrees (by decide) (by decide) hname).1

end CompileError

end ImpC
