import ImpC.Report.Layout

/-!
# The rows of a plain report

A layout is cut into pieces so that each can have a colour of its own: one for each character of the line that is shown,
one for each mark below it, one for each space that a tab is drawn as. Without colours nothing is left of the cuts, and a
report is a list of rows (`Report.rows`), each said here as a whole:

* the title, which is all there is if the label lies behind the end of the source;
* the location, and the bar below it;
* the line as it is drawn, its underline, and the connection to the message, or an empty margin alone where the label does
  not end on the line;
* the closing rule.

The underline is given by the mark of a column and the mark with which it is continued below a wide character
(`Span.underlineMark`), and the connection in the same way.
-/

namespace ImpC.Report

/-! ### Rows -/

/-- As many spaces. -/
def blanks (n : Nat) : String := .ofList (List.replicate n ' ')

/-- A mark and its continuation, drawn in a cell of the given width. -/
def stretch (mark : Char × Char) : Nat → List Char
  | 0 => []
  | width + 1 => mark.1 :: List.replicate width mark.2

/-- The characters of a line as they are drawn, tabs as spaces. -/
def expanded (line : List Char) : List Char := line.zipIdx.flatMap fun (c, column) => drawn column c

namespace Span

/-- The mark of the underline below a column, and its continuation. -/
def underlineMark (s : Span) (column : Nat) : Char × Char :=
  if s.contains column then (if column = s.middle then '┬' else '─', '─')
  else (if column = s.middle then '│' else ' ', ' ')

/-- The mark of the connection below a column, and its continuation. -/
def connectorMark (s : Span) (column : Nat) : Char × Char :=
  if column < s.middle then (' ', ' ') else (if column = s.middle then '╰' else '─', '─')

/-- The row of marks below a line, each as wide as the character above it. -/
def row (s : Span) (line : List Char) (mark : Nat → Char × Char) : String :=
  .ofList ((List.range (s.stop + 2)).flatMap fun column => stretch (mark column) (cellWidth line column))

end Span

/-- The beginning of a row without a number. -/
def marginText (width : Nat) : String := blanks (width + 2) ++ "│ "

/-- The rows that show a line. -/
def excerptRows (s : Span) (number : Nat) (line : List Char) (message : String) (width : Nat) : List String :=
  [" " ++ toString number ++ " │ " ++ .ofList (expanded (trimEnd line)),
   marginText width ++ s.row (trimEnd line) s.underlineMark,
   marginText width ++ s.row (trimEnd line) s.connectorMark ++ " " ++ message]

/-- The rows below the title, for the line in which the span begins. -/
def bodyRows (r : Report) (line : SourceLine) : List String :=
  let span : Span := ⟨r.start - line.offset, r.stop - line.offset⟩
  let number := line.number + 1
  let width := (toString number).length
  [blanks (width + 2) ++ "╭─[" ++ r.file ++ ":" ++ toString number ++ ":" ++ toString (span.start + 1) ++ "]",
   blanks (width + 2) ++ "│"] ++
    (if span.stop ≤ line.text.length then excerptRows span number line.text r.message width else [marginText width]) ++
    [.ofList (List.replicate (width + 2) '─') ++ "╯"]

/-- The rows of a report. -/
def rows (r : Report) : List String :=
  ("Error: " ++ r.title) ::
    match if r.spanInSource then lineAt? r.source r.start else none with
    | some line => r.bodyRows line
    | none => []

/-! ### Pieces put together -/

/-- The text of the pieces of a line. -/
def lineText (line : List Piece) : String := String.join (line.map Piece.text)

@[simp] theorem lineText_nil : lineText [] = "" := rfl

@[simp] theorem lineText_cons (p : Piece) (line : List Piece) : lineText (p :: line) = p.text ++ lineText line :=
  String.join_cons

@[simp] theorem lineText_append (line line' : List Piece) : lineText (line ++ line') = lineText line ++ lineText line' := by
  rw [lineText, List.map_append, String.join_append]
  rfl

/-- Lines that are put together from groups of pieces. -/
theorem lineText_flatMap {α : Type} (xs : List α) (f : α → List Piece) (chars : α → List Char)
    (h : ∀ x, lineText (f x) = .ofList (chars x)) : lineText (xs.flatMap f) = .ofList (xs.flatMap chars) := by
  induction xs with
  | nil => rfl
  | cons x xs ih => rw [List.flatMap_cons, List.flatMap_cons, lineText_append, h, ih, String.ofList_append]

@[simp] theorem lineText_pieces (style : Style) (cs : List Char) : lineText (pieces style cs) = .ofList cs := by
  induction cs with
  | nil => rfl
  | cons c cs ih =>
    rw [pieces, List.map_cons, lineText_cons, ← pieces, ih]
    exact String.toList_inj.1 (by simp)

@[simp] theorem lineText_mark (first rest : Char) (width : Nat) :
    lineText (mark first rest width) = .ofList (stretch (first, rest) width) := by
  cases width with
  | zero => rfl
  | succ width => exact lineText_pieces _ _

@[simp] theorem lineText_blankCell (width : Nat) : lineText (blankCell width) = .ofList (stretch (' ', ' ') width) := by
  rw [blankCell, lineText_cons, lineText_nil, String.append_empty]
  cases width <;> rfl

@[simp] theorem lineText_sourceText (s : Span) (line : List Char) :
    lineText (sourceText s line) = .ofList (expanded line) :=
  lineText_flatMap _ _ _ fun _ => lineText_pieces _ _

namespace Span

theorem lineText_underlineCell (s : Span) (column width : Nat) :
    lineText (s.underlineCell column width) = .ofList (stretch (s.underlineMark column) width) := by
  unfold underlineCell underlineMark
  by_cases hmiddle : column = s.middle
  · rw [if_pos hmiddle, if_pos hmiddle, if_pos hmiddle]
    cases s.contains column with
    | true => exact lineText_mark _ _ _
    | false => exact lineText_mark _ _ _
  · rw [if_neg hmiddle, if_neg hmiddle, if_neg hmiddle]
    cases s.contains column with
    | true => exact lineText_mark _ _ _
    | false => exact lineText_blankCell _

theorem lineText_connectorCell (s : Span) (column width : Nat) :
    lineText (s.connectorCell column width) = .ofList (stretch (s.connectorMark column) width) := by
  unfold connectorCell connectorMark
  obtain hlt | heq | hgt := Nat.lt_trichotomy column s.middle
  · rw [if_pos hlt, if_neg (Nat.ne_of_lt hlt), if_neg (Nat.not_lt_of_gt hlt)]
    exact lineText_blankCell _
  · rw [if_pos heq, if_neg (Nat.not_lt_of_ge (Nat.le_of_eq heq.symm)), if_pos heq]
    exact lineText_mark _ _ _
  · rw [if_neg (Nat.ne_of_gt hgt), if_pos hgt, if_neg (Nat.not_lt_of_gt hgt), if_neg (Nat.ne_of_gt hgt)]
    exact lineText_mark _ _ _

theorem lineText_cells {s : Span} {cell : Nat → Nat → List Piece} {mark : Nat → Char × Char}
    (h : ∀ column width, lineText (cell column width) = .ofList (stretch (mark column) width)) (line : List Char) :
    lineText (s.cells line cell) = s.row line mark :=
  lineText_flatMap _ _ _ fun column => h column (cellWidth line column)

end Span

/-! ### The parts of a report -/

@[simp] theorem lineText_margin (width : Nat) : lineText (margin width) = marginText width := by
  refine String.toList_inj.1 ?_
  simp [margin, spaces, plainPiece, marginText, blanks, List.replicate_succ]

theorem lineText_header (r : Report) : lineText r.header = "Error: " ++ r.title := by
  refine String.toList_inj.1 ?_
  simp [header, plainPiece]

theorem map_lineText_location (file : String) (number column width : Nat) :
    (location file number column width).map lineText =
      [blanks (width + 2) ++ "╭─[" ++ file ++ ":" ++ toString number ++ ":" ++ toString column ++ "]",
       blanks (width + 2) ++ "│"] := by
  simp only [location, List.map_cons, List.map_nil, List.cons.injEq, and_true]
  constructor
  · refine String.toList_inj.1 ?_
    simp [spaces, framePiece, plainPiece, blanks]
  · refine String.toList_inj.1 ?_
    simp [spaces, framePiece, plainPiece, blanks]

theorem map_lineText_excerpt (s : Span) (number : Nat) (line : List Char) (message : String) (width : Nat) :
    (excerpt s number line message width).map lineText = excerptRows s number line message width := by
  simp only [excerpt, excerptRows, List.map_cons, List.map_nil, lineText_append, lineText_margin, lineText_sourceText,
    Span.lineText_cells s.lineText_underlineCell, Span.lineText_cells s.lineText_connectorCell]
  have hnumber : lineText [spaces 1, framePiece (toString number ++ " │"), spaces 1] = " " ++ toString number ++ " │ " := by
    refine String.toList_inj.1 ?_
    simp [spaces, framePiece, plainPiece]
  have hmessage : lineText [plainPiece (" " ++ message)] = " " ++ message := by
    simp [plainPiece]
  rw [hnumber, hmessage, ← String.append_assoc]

theorem lineText_closing (width : Nat) : lineText (closing width) = .ofList (List.replicate (width + 2) '─') ++ "╯" := by
  refine String.toList_inj.1 ?_
  simp [closing, framePiece]

theorem map_lineText_body (r : Report) (line : SourceLine) : (r.body line).map lineText = r.bodyRows line := by
  unfold body bodyRows
  simp only [List.map_append, map_lineText_location, List.map_cons, List.map_nil, lineText_closing]
  split
  · rw [map_lineText_excerpt]
  · rw [List.map_cons, List.map_nil, lineText_margin]

/-- The rows of a report are the lines of its layout. -/
theorem map_lineText_layout (r : Report) : r.layout.map lineText = r.rows := by
  rw [layout, rows, List.map_cons, lineText_header]
  cases if r.spanInSource then lineAt? r.source r.start else none with
  | none => rfl
  | some line => exact congrArg _ (map_lineText_body r line)

/-- **A plain report is its rows**, each ended by a line feed. -/
theorem plainText_eq_join_rows (r : Report) : r.plainText = String.join (r.rows.map (· ++ "\n")) := by
  rw [← map_lineText_layout, List.map_map]
  rfl

end ImpC.Report
