import ImpC.C.Stmt

/-!
# Blocks, read from lines

A reader goes through a text line by line and puts its blocks together, with no knowledge of the code behind the text. It
looks at the ends of a line only: a line that is a closing brace closes the innermost block, a line that ends in an opening
brace opens one, `else` between braces goes on with the alternative of the innermost block, and any other line ends in a
semicolon. The reader stops at a line that is none of these, at a line that closes a block where none is open, at an `else`
whose block was not opened by an `if` or has had its `else`, and at a line whose indentation is not that of the blocks
around it.

What the reader has at the end is a `Layout`: every line at its place in the blocks. `LaidOut width text layout` says
that a text is read to the end, that its first line opens a block which its last line closes, and which layout is found.
Lines are read piece by piece (`Passes.append`), and a piece that never closes what was open before it can stand inside of
any blocks (`Passes.anti`).
-/

namespace ImpC.C

/-! ### Lines -/

/-- The number of spaces in front of a line. -/
def indentation (line : List Char) : Nat := (line.takeWhile (· == ' ')).length

/-- A line without the spaces in front of it. -/
def lineCode (line : List Char) : List Char := line.dropWhile (· == ' ')

/-- What a line does to the blocks around it. -/
inductive LineKind where
  /-- Closes a block. -/
  | closing
  /-- Closes the first half of a block and opens its alternative. -/
  | turning
  /-- Opens a block. -/
  | opening
  /-- Does neither. -/
  | plain
  deriving DecidableEq, Repr, Inhabited

/-- The kind of a line, by its first and last characters. -/
def lineKind? (code : List Char) : Option LineKind :=
  if code = "\x7d".toList then some .closing
  else if code = "\x7d else \x7b".toList then some .turning
  else if code.head? = some '\x7d' then none
  else if code.getLast? = some '\x7b' then some .opening
  else if code.getLast? = some ';' then some .plain
  else none

/-- Whether a line opens the branch of a condition. -/
def isIf (code : List Char) : Bool := "if (".toList.isPrefixOf code && ") \x7b".toList.isSuffixOf code

/-- Lines in the blocks that they form. -/
inductive Layout where
  /-- A line that opens nothing. -/
  | line (code : List Char)
  /-- A block behind the line that opens it. -/
  | block (opener : List Char) (body : List Layout)
  /-- A block with its alternative. -/
  | choice (opener : List Char) (body alternative : List Layout)
  deriving Repr

/-- A block that has been opened and not been closed. -/
structure OpenBlock where
  /-- The line that opened it. -/
  opener : List Char
  /-- What stood in it in front of `else`, if there has been one. -/
  body? : Option (List Layout)
  /-- What stands in front of it in the block around it. -/
  before : List Layout
  deriving Repr

/-- The layout of a block that is closed, where `read` is what stands in it behind its opening line or behind `else`. -/
def OpenBlock.close (b : OpenBlock) (read : List Layout) : Layout :=
  match b.body? with
  | none => .block b.opener read
  | some body => .choice b.opener body read

/-- How far a text has been read. -/
structure Reader where
  /-- The blocks that are open, the innermost first. -/
  blocks : List OpenBlock
  /-- What stands in the innermost of them so far. -/
  read : List Layout
  deriving Repr

namespace Reader

/-- Nothing has been read. -/
def start : Reader := ⟨[], []⟩

/-- The number of blocks around a line of a kind. A line that closes a block stands outside of it. -/
def level (r : Reader) : LineKind → Nat
  | .closing | .turning => r.blocks.length - 1
  | .opening | .plain => r.blocks.length

/-- Reads the code of a line. -/
def readCode : Reader → LineKind → List Char → Option Reader
  | ⟨blocks, read⟩, .plain, code => some ⟨blocks, read ++ [.line code]⟩
  | ⟨blocks, read⟩, .opening, code => some ⟨⟨code, none, read⟩ :: blocks, []⟩
  | ⟨b :: blocks, read⟩, .closing, _ => some ⟨blocks, b.before ++ [b.close read]⟩
  | ⟨⟨opener, none, before⟩ :: blocks, read⟩, .turning, _ =>
    if isIf opener then some ⟨⟨opener, some read, before⟩ :: blocks, []⟩ else none
  | ⟨⟨_, some _, _⟩ :: _, _⟩, .turning, _ | ⟨[], _⟩, .turning, _ | ⟨[], _⟩, .closing, _ => none

/-- Reads a line, which must have the indentation of its level. -/
def readLine (width : Nat) (r : Reader) (line : List Char) : Option Reader :=
  (lineKind? (lineCode line)).bind fun kind =>
    if indentation line = width * r.level kind then r.readCode kind (lineCode line) else none

/-- Reads lines one after the other. -/
def readLines (width : Nat) (r : Reader) (ls : List (List Char)) : Option Reader := ls.foldlM (readLine width) r

end Reader

/-- **A text is laid out.** Divided at its line feeds it is read from the first line to the last, with nothing behind the
last line feed. Before the first line and after the last no block is open, and between any two lines some block is. What is
read in this way is the layout. -/
def LaidOut (width : Nat) (text : String) (layout : Layout) : Prop :=
  ∃ ls, text.toList.splitOn '\n' = ls ++ [[]] ∧ Reader.start.readLines width ls = some ⟨[], [layout]⟩ ∧
    ∀ before after, before ++ after = ls → before ≠ [] → after ≠ [] →
      ∃ r, Reader.start.readLines width before = some r ∧ r.blocks ≠ []

/-! ### Reading a line -/

/-- Lines as they are rendered, without the line feeds between them. -/
def rendered (width : Nat) (ls : List Line) : List (List Char) := ls.map fun l => (l.indented width).toList

/-- The spaces in front of a line are its indentation, whatever its code is. -/
theorem indentation_indented (width depth : Nat) {code : String} (h : ∀ c ∈ code.toList.head?, c ≠ ' ') :
    indentation ((Line.mk depth code).indented width).toList = width * depth ∧
      lineCode ((Line.mk depth code).indented width).toList = code.toList := by
  have hspaces : ∀ c ∈ List.replicate (depth * width) ' ', (c == ' ') = true := fun c hc =>
    beq_iff_eq.2 (List.eq_of_mem_replicate hc)
  have hcode : code.toList.takeWhile (· == ' ') = [] ∧ code.toList.dropWhile (· == ' ') = code.toList := by
    cases hlist : code.toList with
    | nil => exact ⟨rfl, rfl⟩
    | cons c cs =>
      have hc : (c == ' ') = false := beq_eq_false_iff_ne.2 (h c (by rw [hlist]; rfl))
      rw [List.takeWhile_cons, List.dropWhile_cons, hc]
      exact ⟨rfl, rfl⟩
  rw [indentation, lineCode, Line.indented, String.toList_append, String.toList_ofList,
    List.takeWhile_append_of_pos hspaces, List.dropWhile_append_of_pos hspaces, hcode.1, hcode.2, List.append_nil,
    List.length_replicate, Nat.mul_comm]
  exact ⟨rfl, rfl⟩

namespace Reader

variable {width depth low : Nat} {r r' r'' : Reader} {ls ls' : List (List Char)}

/-- A line at its level is read by its code alone. -/
theorem readLine_indented {code : String} {kind : LineKind} (hfirst : ∀ c ∈ code.toList.head?, c ≠ ' ')
    (hkind : lineKind? code.toList = some kind) (hlevel : r.level kind = depth) :
    r.readLine width ((Line.mk depth code).indented width).toList = r.readCode kind code.toList := by
  obtain ⟨hindentation, hcode⟩ := indentation_indented width depth hfirst
  rw [readLine, hindentation, hcode, hkind, Option.bind_some, if_pos (congrArg _ hlevel.symm)]

/-! ### Reading lines -/

theorem readLines_cons {line : List Char} (h : r.readLine width line = some r') :
    r.readLines width (line :: ls) = r'.readLines width ls := by
  rw [readLines, List.foldlM_cons, h]
  rfl

/-- Lines that are read one after the other while at least `low` blocks are open all along. -/
inductive Passes (width low : Nat) : Reader → List (List Char) → Reader → Prop
  | nil {r : Reader} (level : low ≤ r.blocks.length) : Passes width low r [] r
  | cons {r r' r'' : Reader} {line : List Char} {ls : List (List Char)} (level : low ≤ r.blocks.length)
      (first : r.readLine width line = some r') (rest : Passes width low r' ls r'') : Passes width low r (line :: ls) r''

namespace Passes

theorem level_le (h : Passes width low r ls r') : low ≤ r.blocks.length := by
  cases h with
  | nil level => exact level
  | cons level => exact level

theorem readLines_eq (h : Passes width low r ls r') : r.readLines width ls = some r' := by
  induction h with
  | nil => rfl
  | cons level first rest ih => rw [readLines_cons first, ih]

/-- One piece after the other. -/
theorem append (h : Passes width low r ls r') (h' : Passes width low r' ls' r'') : Passes width low r (ls ++ ls') r'' := by
  induction h with
  | nil => exact h'
  | cons level first rest ih => exact .cons level first (ih h')

/-- Where more blocks stay open, fewer do. -/
theorem anti {low' : Nat} (hlow : low' ≤ low) (h : Passes width low r ls r') : Passes width low' r ls r' := by
  induction h with
  | nil level => exact .nil (Nat.le_trans hlow level)
  | cons level first rest ih => exact .cons (Nat.le_trans hlow level) first ih

/-- After a piece in front the blocks are open, too. -/
theorem exists_of_append (h : Passes width low r (ls ++ ls') r'') :
    ∃ r', r.readLines width ls = some r' ∧ low ≤ r'.blocks.length := by
  induction ls generalizing r with
  | nil => exact ⟨r, rfl, h.level_le⟩
  | cons line ls ih =>
    cases h with
    | cons level first rest =>
      rw [readLines_cons first]
      exact ih rest

/-- A line of its own. -/
theorem line {line : List Char} (h : r.readLine width line = some r') (hlow : low ≤ r.blocks.length)
    (hlow' : low ≤ r'.blocks.length) : Passes width low r [line] r' :=
  .cons hlow h (.nil hlow')

end Passes

end Reader

end ImpC.C
