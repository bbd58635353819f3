/-!
# Styled text

A report is a list of lines, each a list of pieces with a style. It is rendered plain, by joining the texts, or coloured, by
putting each piece that has a colour between an escape sequence that sets the colour and one that resets it. The two
renderings differ in the escape sequences alone.
-/

namespace ImpC.Report

/-- The styles of a piece of text. -/
inductive Style where
  /-- Text as it is. -/
  | plain
  /-- What the report is about. -/
  | alert
  /-- The frame around the program text, and the number of a line. -/
  | frame
  /-- The margin of lines that have no number. -/
  | margin
  /-- Program text that the report is not about. -/
  | context
  deriving DecidableEq, Repr, Inhabited

/-- The parameters of the escape sequence for a style. -/
def Style.colour? : Style → Option String
  | plain => none
  | alert => some "31"
  | frame => some "38;5;246"
  | margin => some "38;5;240"
  | context => some "38;5;249"

/-- A piece of text in one style. -/
structure Piece where
  style : Style
  text : String
  deriving DecidableEq, Repr, Inhabited

namespace Piece

/-- The piece between its escape sequences. -/
def coloured (p : Piece) : String :=
  match p.style.colour? with
  | none => p.text
  | some colour => "\x1b[" ++ colour ++ "m" ++ p.text ++ "\x1b[0m"

end Piece

/-- Lines of pieces, each line ended by a line feed. -/
abbrev Layout := List (List Piece)

namespace Layout

/-- The text of a layout, where each piece is written by `write`. -/
def render (write : Piece → String) (layout : Layout) : String :=
  String.join (layout.map fun line => String.join (line.map write) ++ "\n")

/-- The text without colours. -/
def plain (layout : Layout) : String := layout.render Piece.text

/-- The text with colours. -/
def coloured (layout : Layout) : String := layout.render Piece.coloured

end Layout

end ImpC.Report
