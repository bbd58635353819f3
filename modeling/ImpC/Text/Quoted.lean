import ImpC.Text.Combining
import ImpC.Text.Ignorable
import ImpC.Text.Unprintable

/-!
# Quoted text

A text in double quotes, on one line and in visible characters only: the quote and the backslash are written behind
a backslash, the usual control characters by a letter, and any other character that would not show, or would merge
with the one before it, by its code point in hexadecimal, `\u{301}`.
-/

namespace ImpC.Text

/-- A character written by its code point. -/
def codePoint (c : Char) : List Char :=
  '\\' :: 'u' :: '\x7b' :: Nat.toDigits 16 c.toNat ++ ['\x7d']

/-- A character inside quotes. -/
def quoteChar (c : Char) : List Char :=
  if c = '\x00' then ['\\', '0']
  else if c = '\t' then ['\\', 't']
  else if c = '\r' then ['\\', 'r']
  else if c = '\n' then ['\\', 'n']
  else if c = '"' then ['\\', '"']
  else if c = '\\' then ['\\', '\\']
  else if isCombining c || isIgnorable c || isUnprintable c then codePoint c
  else [c]

/-- The quoted form of a text. -/
def quoted (s : String) : String :=
  .ofList ('"' :: s.toList.flatMap quoteChar ++ ['"'])

end ImpC.Text
