import ImpC.Decimal.Layout

/-!
# Literals in C

Integers carry the suffix `LL`, so that arithmetic on them is done in `long long`. Negative numbers stand in
parentheses. The least integer has no literal in C, because its magnitude is out of range, and is written as a
difference. A float that is not finite is a macro of `math.h` (`needsMath`).

In a string literal (`textLiteral`) the quote, the backslash and the question mark stand behind a backslash, the last so
that no trigraph arises; control characters are written by a letter or by three octal digits, which no digit that
follows can extend. All other characters stand for themselves.
-/

namespace ImpC.C

/-- An integer literal. -/
def longLiteral (v : Int64) : String :=
  if v.toInt = -9223372036854775808 then "(-9223372036854775807LL - 1)"
  else if v.toInt < 0 then "(" ++ toString v.toInt ++ "LL)"
  else toString v.toInt ++ "LL"

/-- Whether the literal of a double is a macro of `math.h`. -/
def needsMath (x : Binary64) : Bool := x.isNaN || x.isInfinite

/-- A float literal. -/
def doubleLiteral (x : Binary64) : String :=
  if x.isNaN then "NAN"
  else if x.isInfinite then if x.negative then "(-INFINITY)" else "INFINITY"
  else if x.negative then "(" ++ x.toText ++ ")"
  else x.toText

/-- The octal digit of a number below eight. -/
def octalDigit (n : Nat) : Char := Char.ofNat (48 + n % 8)

/-- Three octal digits. -/
def octal (n : Nat) : List Char := [octalDigit (n / 64), octalDigit (n / 8), octalDigit n]

/-- The control characters of ASCII. -/
def isControl (c : Char) : Bool := c.toNat < 32 || c.toNat = 127

/-- A character inside a string literal. -/
def escapeChar (c : Char) : List Char :=
  if c = '"' then ['\\', '"']
  else if c = '\\' then ['\\', '\\']
  else if c = '\n' then ['\\', 'n']
  else if c = '\t' then ['\\', 't']
  else if c = '\r' then ['\\', 'r']
  else if c = '?' then ['\\', '?']
  else if isControl c then '\\' :: octal c.toNat
  else [c]

/-- The characters of a text between the quotes of its literal. -/
def escape (s : String) : String := .ofList (s.toList.flatMap escapeChar)

/-- A string literal. -/
def textLiteral (s : String) : String := "\"" ++ escape s ++ "\""

end ImpC.C
