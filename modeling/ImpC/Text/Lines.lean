/-!
# Lines of a text

A line runs up to and including its terminator: a line feed, a carriage return, the two together, a vertical tab, a form
feed, or one of the separators U+0085, U+2028 and U+2029. No empty line follows a terminator that ends the text, so the
lines of a text joined together are the text (`flatten_splitLines`) and none of them is empty.
-/

namespace ImpC.Text

/-- The characters that end a line. -/
def isLineEnd (c : Char) : Bool :=
  c = '\n' || c = '\r' || c = '\x0b' || c = '\x0c' || c = '\u0085' || c = '\u2028' || c = '\u2029'

/-- Puts a character in front of the first line. -/
def consLine (c : Char) : List (List Char) → List (List Char)
  | [] => [[c]]
  | line :: rest => (c :: line) :: rest

/-- The lines of a text, each with its terminator. -/
def splitLines : List Char → List (List Char)
  | [] => []
  | '\r' :: '\n' :: rest => ['\r', '\n'] :: splitLines rest
  | c :: rest => if isLineEnd c then [c] :: splitLines rest else consLine c (splitLines rest)

@[simp] theorem flatten_consLine (c : Char) (lines : List (List Char)) :
    (consLine c lines).flatten = c :: lines.flatten := by
  cases lines <;> rfl

/-- Splitting a text into lines loses nothing. -/
@[simp] theorem flatten_splitLines (text : List Char) : (splitLines text).flatten = text := by
  fun_induction splitLines text <;> simp_all

end ImpC.Text
