import ImpC.Report.Style
import ImpC.Text.Blank
import ImpC.Text.Columns
import ImpC.Text.Lines

/-!
# The layout of a report

A report has a title, and points with a message at a span of characters of a source text. It shows

* the title;
* where the span begins: the file, the line and the column, both counted from one;
* the line, with the span underlined from below and the message attached to the middle of the underline;
* a closing rule.

The underline is drawn in cells, one for each character of the line, as wide as the character is (`charWidth`); a
character that takes no column has an empty cell, even where the message should be attached. A span that begins behind
the end of the source leaves the title alone, and one that does not end on its line leaves out the line.
-/

namespace ImpC

/-- A message about a span of characters of a source text. -/
structure Report where
  title : String
  message : String
  file : String
  source : String
  /-- The first character of the span. -/
  start : Nat
  /-- The character behind the span. -/
  stop : Nat
  deriving DecidableEq, Repr, Inhabited

namespace Report

/-! ### Finding the line -/

/-- A line of the source: its number, counted from zero, the characters before it, and its characters. -/
structure SourceLine where
  number : Nat
  offset : Nat
  text : List Char
  deriving DecidableEq, Repr, Inhabited

/-- Numbers lines from the given number and offset on. -/
def numberLines (number offset : Nat) : List (List Char) → List SourceLine
  | [] => []
  | line :: rest => ⟨number, offset, line⟩ :: numberLines (number + 1) (offset + line.length) rest

/-- The last line that does not begin behind the given character. -/
def lineAt? (source : String) (position : Nat) : Option SourceLine :=
  ((numberLines 0 0 (Text.splitLines source.toList)).filter (·.offset ≤ position)).getLast?

/-! ### Characters and cells -/

/-- The columns a character takes. A tab reaches to the next multiple of four characters of its line, and other white
space takes one column. -/
def charWidth (column : Nat) (c : Char) : Nat :=
  if c = '\t' then (column / 4 + 1) * 4 - column
  else if Text.isBlank c then 1
  else Text.columns c

/-- The characters a character is drawn as. White space is drawn as spaces. -/
def drawn (column : Nat) (c : Char) : List Char :=
  if c = '\t' then List.replicate (charWidth column c) ' '
  else if Text.isBlank c then [' ']
  else [c]

/-- A line without the white space at its end. -/
def trimEnd (line : List Char) : List Char := (line.reverse.dropWhile Text.isBlank).reverse

/-- The width of the cell below a column of a line; one column behind its end. -/
def cellWidth (text : List Char) (column : Nat) : Nat :=
  match text[column]? with
  | some c => charWidth column c
  | none => 1

/-- Pieces of one character each. -/
def pieces (style : Style) (cs : List Char) : List Piece := cs.map fun c => ⟨style, .singleton c⟩

/-- A cell of the given width with a mark and then its continuation. A cell without width shows nothing. -/
def mark (first rest : Char) : Nat → List Piece
  | 0 => []
  | width + 1 => pieces .alert (first :: List.replicate width rest)

/-- An empty cell. -/
def blankCell (width : Nat) : List Piece := [⟨.plain, .ofList (List.replicate width ' ')⟩]

/-! ### The underline -/

/-- A span of columns of a line. -/
structure Span where
  start : Nat
  stop : Nat
  deriving DecidableEq, Repr, Inhabited

namespace Span

/-- Whether a column belongs to the span. -/
def contains (s : Span) (column : Nat) : Bool := s.start ≤ column && column < s.stop

/-- The column to which the message is attached. -/
def middle (s : Span) : Nat := (s.start + s.stop) / 2

/-- The cell of the underline below a column. -/
def underlineCell (s : Span) (column width : Nat) : List Piece :=
  if column = s.middle then
    if s.contains column then mark '┬' '─' width else mark '│' ' ' width
  else if s.contains column then mark '─' '─' width
  else blankCell width

/-- The cell of the connection between the underline and the message. -/
def connectorCell (s : Span) (column width : Nat) : List Piece :=
  if column = s.middle then mark '╰' '─' width
  else if s.middle < column then mark '─' '─' width
  else blankCell width

/-- The cells below a line, drawn two columns past the span. -/
def cells (s : Span) (line : List Char) (cell : Nat → Nat → List Piece) : List Piece :=
  (List.range (s.stop + 2)).flatMap fun column => cell column (cellWidth line column)

end Span

/-! ### The parts of a report -/

/-- A plain piece. -/
def plainPiece (text : String) : Piece := ⟨.plain, text⟩

/-- A piece of the frame. -/
def framePiece (text : String) : Piece := ⟨.frame, text⟩

/-- Plain spaces. -/
def spaces (n : Nat) : Piece := plainPiece (.ofList (List.replicate n ' '))

/-- The margin of a line without a number, where line numbers have `width` digits. -/
def margin (width : Nat) : List Piece :=
  [spaces 1, ⟨.margin, .ofList (List.replicate (width + 1) ' ' ++ ['│'])⟩, spaces 1]

/-- The title. -/
def header (r : Report) : List Piece := [⟨.alert, "Error:"⟩, plainPiece (" " ++ r.title)]

/-- Where the span begins, in a frame that the empty margin below it belongs to. -/
def location (file : String) (number column width : Nat) : Layout :=
  [[spaces (width + 2), framePiece "╭", framePiece "─", framePiece "[",
    plainPiece (file ++ ":" ++ toString number ++ ":" ++ toString column), framePiece "]"],
   [spaces (width + 2), framePiece "│"]]

/-- The characters of a line, those of the span in the colour of the report. -/
def sourceText (s : Span) (line : List Char) : List Piece :=
  line.zipIdx.flatMap fun (c, column) =>
    pieces (if s.contains column then .alert else .context) (drawn column c)

/-- The line, the underline and the message. -/
def excerpt (s : Span) (number : Nat) (line : List Char) (message : String) (width : Nat) : Layout :=
  let text := trimEnd line
  [[spaces 1, framePiece (toString number ++ " │"), spaces 1] ++ sourceText s text,
   margin width ++ s.cells text s.underlineCell,
   margin width ++ s.cells text s.connectorCell ++ [plainPiece (" " ++ message)]]

/-- The rule that ends a report. -/
def closing (width : Nat) : List Piece := [framePiece (.ofList (List.replicate (width + 2) '─' ++ ['╯']))]

/-- Whether the span lies in the source, up to one character behind its end. -/
def spanInSource (r : Report) : Bool :=
  r.start ≤ r.source.length && (r.stop ≤ r.start || r.stop ≤ r.source.length + 1)

/-- The part of a report below its title, for the line in which the span begins. -/
def body (r : Report) (line : SourceLine) : Layout :=
  let span : Span := ⟨r.start - line.offset, r.stop - line.offset⟩
  let number := line.number + 1
  let width := (toString number).length
  location r.file number (span.start + 1) width ++
    (if span.stop ≤ line.text.length then excerpt span number line.text r.message width else [margin width]) ++
    [closing width]

/-- The layout of a report. -/
def layout (r : Report) : Layout :=
  let shown := if r.spanInSource then lineAt? r.source r.start else none
  r.header :: match shown with
    | some line => r.body line
    | none => []

/-- The report without colours. -/
def plainText (r : Report) : String := Layout.plain r.layout

/-- The report with colours. -/
def colouredText (r : Report) : String := Layout.coloured r.layout

end Report

end ImpC
