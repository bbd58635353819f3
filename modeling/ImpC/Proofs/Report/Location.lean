import ImpC.Compile
import ImpC.Proofs.Report.Escapes
import ImpC.Proofs.Report.Rows
import ImpC.Proofs.Text.Lines

/-!
# When a report points at its subject

The report of an error points at the first occurrence of the name or operator that the error is about. The place is
measured in bytes and taken for a number of characters. `CompileError.report_points_at` says when this is right. Where all
characters up to the end of the occurrence are from the first 128, the report gives the line and the column of the
occurrence, shows that line as it is drawn (`expanded`), and underlines the cells of the occurrence and no others
(`Underlines`). Where a character of several bytes comes before the occurrence, the report never gives the right place: it
gives a later one, or none.

White space in the line is drawn as spaces, and not only that of tabs (`CompileError.report_draws_white_space`).
-/

namespace ImpC

namespace Report

/-! ### Finding the line -/

section Lines

variable {source : String} {line : SourceLine} {lines : List (List Char)} {content : List Char}
  {number offset position column i : Nat}

/-- A numbered line is one of the lines, with its number and the characters before it. -/
theorem exists_of_mem_numberLines (h : line ∈ numberLines number offset lines) :
    ∃ i, lines[i]? = some line.text ∧ line.number = number + i ∧
      line.offset = offset + (lines.take i).flatten.length := by
  induction lines generalizing number offset with
  | nil => exact absurd h List.not_mem_nil
  | cons first rest ih =>
    obtain rfl | h := List.mem_cons.1 h
    · exact ⟨0, rfl, rfl, rfl⟩
    · obtain ⟨i, htext, hnumber, hoffset⟩ := ih h
      refine ⟨i + 1, htext, by omega, ?_⟩
      rw [List.take_succ_cons, List.flatten_cons, List.length_append]
      omega

theorem pairwise_numberLines : (numberLines number offset lines).Pairwise (·.number < ·.number) := by
  induction lines generalizing number offset with
  | nil => exact .nil
  | cons first rest ih =>
    refine List.pairwise_cons.2 ⟨fun line hline => ?_, ih⟩
    obtain ⟨i, -, hnumber, -⟩ := exists_of_mem_numberLines hline
    show number < line.number
    omega

/-- The last line that does not begin behind a character is the line of the character. -/
theorem getLast?_filter_numberLines (number offset : Nat) (hcontent : lines[i]? = some content)
    (hcolumn : column < content.length)
    (hposition : offset + (lines.take i).flatten.length + column = position) :
    ((numberLines number offset lines).filter (·.offset ≤ position)).getLast? =
      some ⟨number + i, position - column, content⟩ := by
  induction lines generalizing number offset i with
  | nil => cases hcontent
  | cons first rest ih =>
    have hkept : offset ≤ position := by omega
    rw [numberLines, List.filter_cons_of_pos (by simpa using hkept)]
    cases i with
    | zero =>
      cases hcontent
      -- the other lines begin behind the first, and so behind the character
      have hothers : (numberLines (number + 1) (offset + content.length) rest).filter (·.offset ≤ position) = [] := by
        refine List.filter_eq_nil_iff.2 fun line hline hle => ?_
        obtain ⟨j, -, -, hoffset⟩ := exists_of_mem_numberLines hline
        have hle : line.offset ≤ position := of_decide_eq_true hle
        simp only [List.take_zero, List.flatten_nil, List.length_nil] at hposition
        omega
      rw [hothers]
      simp only [List.take_zero, List.flatten_nil, List.length_nil] at hposition
      show some (⟨number, offset, content⟩ : SourceLine) = some ⟨number, position - column, content⟩
      rw [← hposition, Nat.add_zero, Nat.add_sub_cancel]
    | succ i =>
      rw [List.take_succ_cons, List.flatten_cons, List.length_append, ← Nat.add_assoc] at hposition
      rw [List.getLast?_cons, ih (number + 1) _ hcontent hposition, Option.getD_some, Nat.add_right_comm, Nat.add_assoc]

/-- **The line of a character** is the one that a report shows. -/
theorem lineAt?_of_place (h : Text.Place source.toList position i column content) :
    lineAt? source position = some ⟨i, position - column, content⟩ := by
  have hlast := getLast?_filter_numberLines 0 0 h.content_eq h.column_lt (by rw [Nat.zero_add, h.position_eq])
  rw [Nat.zero_add] at hlast
  exact hlast

/-- **A character further behind has a later place.** -/
theorem later_of_lineAt? {behind : Nat} (h : Text.Place source.toList position i column content)
    (hbehind : position < behind) (hline : lineAt? source behind = some line) :
    i < line.number ∨ i = line.number ∧ column < behind - line.offset := by
  have hplace := lineAt?_of_place h
  have hcolumn := h.position_eq
  have hmem := (List.mem_filter.1 (List.mem_of_getLast? hplace)).1
  obtain ⟨earlier, hlines⟩ := List.getLast?_eq_some_iff.1 hline
  have hkept : (⟨i, position - column, content⟩ : SourceLine) ∈ earlier ++ [line] := by
    rw [← hlines]
    exact List.mem_filter.2 ⟨hmem, decide_eq_true (by show position - column ≤ behind; omega)⟩
  obtain hbefore | hsame := List.mem_append.1 hkept
  · have hordered : (earlier ++ [line]).Pairwise (·.number < ·.number) := hlines ▸ pairwise_numberLines.filter _
    exact .inl ((List.pairwise_append.1 hordered).2.2 _ hbefore _ (List.mem_singleton.2 rfl))
  · obtain rfl := List.mem_singleton.1 hsame
    refine .inr ⟨rfl, ?_⟩
    show column < behind - (position - column)
    omega

end Lines

/-! ### Characters of one column -/

section Cells

variable {c : Char} {text : List Char} {column start stop : Nat}

theorem contains_eq_false {table : Text.Ranges} (h : table.all (fun r => 128 ≤ r.1) = true) (hc : c.toNat < 128) :
    table.contains c = false := by
  refine List.any_eq_false.2 fun r hr hmatch => ?_
  have hfirst : 128 ≤ r.1 := of_decide_eq_true (List.all_eq_true.1 h r hr)
  have hle : r.1 ≤ c.toNat := of_decide_eq_true (Bool.and_eq_true_iff.1 hmatch).1
  omega

/-- The first 128 characters take one column each. -/
theorem columns_eq_one (hc : c.toNat < 128) : Text.columns c = 1 := by
  have hzero : Text.isZeroWidth c = false := contains_eq_false (by decide +kernel) hc
  have hwide : Text.isWide c = false := contains_eq_false (by decide +kernel) hc
  have hne : ∀ d : Char, 128 ≤ d.toNat → c ≠ d := by
    rintro d hd rfl
    omega
  unfold Text.columns
  rw [hzero, hwide, if_neg (by decide), if_neg (hne _ (by decide)), if_neg]
  simpa using hne '\u17a4' (by decide)

/-- Such a character is drawn in its cell, which is not empty. -/
theorem length_drawn (column : Nat) (hc : c.toNat < 128) :
    (drawn column c).length = charWidth column c ∧ 0 < charWidth column c := by
  unfold drawn
  split
  · next htab =>
    rw [List.length_replicate, charWidth, if_pos htab]
    exact ⟨rfl, by omega⟩
  · next htab =>
    rw [charWidth, if_neg htab]
    split
    · exact ⟨rfl, Nat.one_pos⟩
    · rw [columns_eq_one hc]
      exact ⟨rfl, Nat.one_pos⟩

/-! ### Cells -/

/-- How much place the cells below some columns take. -/
def cellsWidth (text : List Char) : List Nat → Nat
  | [] => 0
  | column :: columns => cellWidth text column + cellsWidth text columns

/-- Where the cell below a column begins. -/
def cellStart (text : List Char) (column : Nat) : Nat := cellsWidth text (List.range column)

theorem cellsWidth_append (text : List Char) (columns columns' : List Nat) :
    cellsWidth text (columns ++ columns') = cellsWidth text columns + cellsWidth text columns' := by
  induction columns with
  | nil => exact (Nat.zero_add _).symm
  | cons column columns ih => rw [List.cons_append, cellsWidth, cellsWidth, ih, Nat.add_assoc]

theorem cellStart_succ (text : List Char) (column : Nat) :
    cellStart text (column + 1) = cellStart text column + cellWidth text column := by
  rw [cellStart, List.range_succ, cellsWidth_append]
  rfl

/-- A row of marks that underlines the columns from `start` up to `stop`: it marks the cells below them, which are not
empty, and leaves the others blank. In a line that is drawn the characters in front of a column take as much place as the
cells in front of it. -/
structure Underlines (text : List Char) (start stop : Nat) (row : List Char) : Prop where
  marks : ∃ marks behind, row = List.replicate (cellStart text start) ' ' ++ marks ++ List.replicate behind ' ' ∧
    cellStart text start + marks.length = cellStart text stop ∧ ∀ c ∈ marks, c = '─' ∨ c = '┬'
  width_pos : ∀ column < stop, 0 < cellWidth text column
  aligned : ∀ column ≤ stop, column ≤ text.length → (expanded (text.take column)).length = cellStart text column

theorem length_stretch (mark : Char × Char) (width : Nat) : (stretch mark width).length = width := by
  cases width with
  | zero => rfl
  | succ width => rw [stretch, List.length_cons, List.length_replicate]

theorem stretch_blank (width : Nat) : stretch (' ', ' ') width = List.replicate width ' ' := by
  cases width <;> rfl

/-- Cells in which nothing is marked. -/
theorem flatMap_stretch_blank {columns : List Nat} {mark : Nat → Char × Char}
    (h : ∀ column ∈ columns, mark column = (' ', ' ')) :
    (columns.flatMap fun column => stretch (mark column) (cellWidth text column)) =
      List.replicate (cellsWidth text columns) ' ' := by
  induction columns with
  | nil => rfl
  | cons column columns ih =>
    obtain ⟨hcolumn, hcolumns⟩ := List.forall_mem_cons.1 h
    rw [List.flatMap_cons, ih hcolumns, hcolumn, stretch_blank, cellsWidth, List.replicate_append_replicate]

theorem length_flatMap_stretch (text : List Char) (columns : List Nat) (mark : Nat → Char × Char) :
    (columns.flatMap fun column => stretch (mark column) (cellWidth text column)).length = cellsWidth text columns := by
  induction columns with
  | nil => rfl
  | cons column columns ih => rw [List.flatMap_cons, List.length_append, length_stretch, ih, cellsWidth]

theorem eq_of_mem_stretch {mark : Char × Char} {width : Nat} (h : c ∈ stretch mark width) : c = mark.1 ∨ c = mark.2 := by
  cases width with
  | zero => exact absurd h List.not_mem_nil
  | succ width => exact (List.mem_cons.1 h).imp id fun hrest => (List.mem_replicate.1 hrest).2

/-- Behind a span and in front of it nothing is marked, for its middle is in it. -/
theorem underlineMark_of_outside {s : Span} (hs : s.start < s.stop) (h : s.contains column = false) :
    s.underlineMark column = (' ', ' ') := by
  have hmiddle : column ≠ s.middle := by
    rintro rfl
    have hcontains : s.contains s.middle = true := by
      rw [Span.contains, Bool.and_eq_true_iff, decide_eq_true_iff, decide_eq_true_iff, Span.middle]
      omega
    rw [h] at hcontains
    cases hcontains
  rw [Span.underlineMark, h, if_neg (by decide), if_neg hmiddle]

theorem underlineMark_of_inside {s : Span} (h : s.contains column = true) :
    s.underlineMark column = ('─', '─') ∨ s.underlineMark column = ('┬', '─') := by
  rw [Span.underlineMark, h, if_pos rfl]
  split
  · exact .inr rfl
  · exact .inl rfl

/-- **The underline of a span** marks its cells and no others. -/
theorem exists_marks (h : start < stop) (text : List Char) :
    ∃ marks behind,
      (Span.row ⟨start, stop⟩ text (Span.underlineMark ⟨start, stop⟩)).toList =
        List.replicate (cellStart text start) ' ' ++ marks ++ List.replicate behind ' ' ∧
      cellStart text start + marks.length = cellStart text stop ∧ ∀ c ∈ marks, c = '─' ∨ c = '┬' := by
  let s : Span := ⟨start, stop⟩
  let inside : List Nat := (List.range (stop - start)).map (start + ·)
  have hinside : List.range stop = List.range start ++ inside := by
    rw [← List.range_add, Nat.add_sub_cancel' (Nat.le_of_lt h)]
  have hcontains : ∀ {column : Nat}, s.contains column = true ↔ start ≤ column ∧ column < stop := by
    intro column
    rw [Span.contains, Bool.and_eq_true_iff, decide_eq_true_iff, decide_eq_true_iff]
  have houtside : ∀ {column : Nat}, ¬ (start ≤ column ∧ column < stop) → s.underlineMark column = (' ', ' ') := by
    intro column hcolumn
    exact underlineMark_of_outside h (Bool.eq_false_iff.2 fun hc => hcolumn (hcontains.1 hc))
  refine ⟨inside.flatMap fun column => stretch (s.underlineMark column) (cellWidth text column),
    cellsWidth text ((List.range 2).map (stop + ·)), ?_, ?_, ?_⟩
  · -- the columns in front of the span, those of the span, and the two behind it
    rw [Span.row, String.toList_ofList]
    show (List.range (stop + 2)).flatMap _ = _
    rw [List.range_add, hinside, List.flatMap_append, List.flatMap_append]
    congr 1
    · congr 1
      refine flatMap_stretch_blank fun column hcolumn => houtside fun hin => ?_
      exact Nat.not_lt_of_le hin.1 (List.mem_range.1 hcolumn)
    · refine flatMap_stretch_blank fun column hcolumn => houtside fun hin => ?_
      obtain ⟨k, -, rfl⟩ := List.mem_map.1 hcolumn
      omega
  · rw [length_flatMap_stretch, cellStart, cellStart, hinside, cellsWidth_append]
  · intro c hc
    obtain ⟨column, hcolumn, hc⟩ := List.mem_flatMap.1 hc
    have hin : s.contains column = true := by
      obtain ⟨k, hk, rfl⟩ := List.mem_map.1 hcolumn
      have hk := List.mem_range.1 hk
      exact hcontains.2 ⟨by omega, by omega⟩
    obtain hmark | hmark := underlineMark_of_inside hin
    · rw [hmark] at hc
      exact .inl ((eq_of_mem_stretch hc).elim id id)
    · rw [hmark] at hc
      exact (eq_of_mem_stretch hc).symm

theorem cellWidth_of_getElem? (h : text[column]? = some c) : cellWidth text column = charWidth column c := by
  rw [cellWidth, h]

theorem expanded_append_singleton (text : List Char) (c : Char) :
    expanded (text ++ [c]) = expanded text ++ drawn text.length c := by
  rw [expanded, List.zipIdx_append, List.flatMap_append]
  simp [expanded]

/-- The underline of characters that are drawn in one column each, tabs apart. -/
theorem underlines_row (h : start < stop) (hchars : ∀ column < stop, ∀ c ∈ text[column]?, c.toNat < 128) :
    Underlines text start stop (Span.row ⟨start, stop⟩ text (Span.underlineMark ⟨start, stop⟩)).toList where
  marks := exists_marks h text
  width_pos := by
    intro column hcolumn
    cases hc : text[column]? with
    | none =>
      rw [cellWidth, hc]
      exact Nat.one_pos
    | some c =>
      rw [cellWidth_of_getElem? hc]
      exact (length_drawn column (hchars column hcolumn c hc)).2
  aligned := by
    intro column hstop hlength
    induction column with
    | zero => rfl
    | succ column ih =>
      have hc : text[column]? = some text[column] := List.getElem?_eq_getElem (by omega)
      have hwidth := (length_drawn column (hchars column (by omega) _ hc)).1
      rw [List.take_succ_eq_append_getElem (by omega), expanded_append_singleton, List.length_append,
        ih (by omega) (by omega), cellStart_succ, cellWidth_of_getElem? hc, List.length_take, Nat.min_eq_left (by omega),
        hwidth]

/-- What is left of a line without the white space at its end is its beginning. -/
theorem getElem?_of_getElem?_trimEnd (h : (trimEnd text)[column]? = some c) : text[column]? = some c := by
  have hbeginning : trimEnd text <+: text := by
    rw [trimEnd, ← List.reverse_suffix, List.reverse_reverse]
    exact List.dropWhile_suffix _
  obtain ⟨blank, htext⟩ := hbeginning
  calc text[column]? = (trimEnd text ++ blank)[column]? := by rw [htext]
    _ = (trimEnd text)[column]? := List.getElem?_append_left (List.getElem?_eq_some_iff.1 h).1
    _ = some c := h

end Cells

/-- The row that gives a place, line and column counted from zero. -/
def locationRow (file : String) (line column : Nat) : String :=
  blanks ((toString (line + 1)).length + 2) ++ "╭─[" ++ file ++ ":" ++ toString (line + 1) ++ ":" ++
    toString (column + 1) ++ "]"

/-- The rows of a report whose span lies in one line. -/
theorem rows_of_place {r : Report} {line column : Nat} {content : List Char} (hspan : r.spanInSource = true)
    (hplace : Text.Place r.source.toList r.start line column content)
    (hstop : r.stop - (r.start - column) ≤ content.length) :
    r.rows =
      ["Error: " ++ r.title, locationRow r.file line column, blanks ((toString (line + 1)).length + 2) ++ "│"] ++
        excerptRows ⟨column, r.stop - (r.start - column)⟩ (line + 1) content r.message (toString (line + 1)).length ++
        [.ofList (List.replicate ((toString (line + 1)).length + 2) '─') ++ "╯"] := by
  have hcolumn : r.start - (r.start - column) = column := by
    have hposition := hplace.position_eq
    omega
  rw [rows, hspan, if_pos rfl, lineAt?_of_place hplace]
  show ("Error: " ++ r.title) :: r.bodyRows _ = _
  unfold bodyRows
  dsimp only
  rw [if_pos hstop, hcolumn]
  rfl

end Report

namespace CompileError

variable {e : CompileError} {source file subject : String} {before : List Char}

/-- The span of an error whose subject occurs in the source. -/
theorem span_eq (hsubject : e.subject? = some subject)
    (hfirst : Text.IsFirstOccurrence subject.toList source.toList before) :
    e.span source = ⟨Text.byteCount before, Text.byteCount before + Text.byteCount subject.toList⟩ := by
  rw [span, hsubject]
  dsimp only
  rw [Text.firstOccurrence?_eq_some_iff.2 hfirst, Text.utf8ByteSize_eq_byteCount]

/-- Where all characters up to the end of the subject are from the first 128, the report shows its line. -/
theorem rows_report_of_ascii (file : String) {line column : Nat} {content : List Char} (hsubject : e.subject? = some subject)
    (hline : ∀ c ∈ subject.toList, Text.isLineEnd c = false)
    (hfirst : Text.IsFirstOccurrence subject.toList source.toList before)
    (hplace : Text.Place source.toList before.length line column content)
    (hascii : ∀ c ∈ before ++ subject.toList, c.toNat < 128) :
    (e.report source file).rows =
      ["Error: " ++ e.title, Report.locationRow file line column,
        Report.blanks ((toString (line + 1)).length + 2) ++ "│"] ++
        Report.excerptRows ⟨column, column + subject.length⟩ (line + 1) content e.detail (toString (line + 1)).length ++
        [.ofList (List.replicate ((toString (line + 1)).length + 2) '─') ++ "╯"] ∧
      ∀ k < column + subject.length, ∀ c ∈ content[k]?, c.toNat < 128 := by
  obtain ⟨hbefore, hsubject'⟩ := List.forall_mem_append.1 hascii
  obtain ⟨after, hsource⟩ := hfirst.occurs
  rw [List.append_assoc] at hsource
  obtain ⟨left, rest, rfl, rfl, hleft⟩ := Text.Place.exists_content (hsource ▸ hplace) hline
  have hspan := span_eq hsubject hfirst
  rw [Text.byteCount_eq_length hbefore, Text.byteCount_eq_length hsubject', String.length_toList] at hspan
  have hlength : source.length = before.length + (subject.length + after.length) := by
    rw [← String.length_toList, ← hsource, List.length_append, List.length_append, String.length_toList]
  have hposition : left.length ≤ before.length := hleft.length_le
  have hstart : (e.report source file).start = before.length := congrArg Report.Span.start hspan
  have hstop : (e.report source file).stop = before.length + subject.length := congrArg Report.Span.stop hspan
  have hwidth : (e.report source file).stop - ((e.report source file).start - left.length) =
      left.length + subject.length := by
    rw [hstart, hstop]
    omega
  constructor
  · rw [← hwidth]
    refine Report.rows_of_place ?_ (by rw [hstart]; exact hplace) ?_
    · rw [Report.spanInSource, hstart, hstop]
      show (decide (_ ≤ source.length) && (decide _ || decide (_ ≤ source.length + 1))) = true
      rw [decide_eq_true (by omega), decide_eq_true (by omega : before.length + subject.length ≤ source.length + 1),
        Bool.or_true, Bool.and_true]
    · rw [hwidth, List.length_append, List.length_append, String.length_toList]
      omega
  · -- the characters of the line up to the end of the subject are characters before it or in it
    intro k hk c hc
    rw [← List.append_assoc, List.getElem?_append_left (by rw [List.length_append, String.length_toList]; exact hk)] at hc
    obtain hc | hc := List.mem_append.1 (List.mem_of_getElem? hc)
    · exact hbefore c (hleft.subset hc)
    · exact hsubject' c hc

/-- **When a report points at its subject.** Let the subject of an error be in one line and occur in the source. The first
occurrence begins in some line at some column. If all characters up to its end are from the first 128, the report gives this
line and column, counted from one, shows the line without the white space at its end and with all other white space drawn as
spaces, and underlines the cells of the occurrence. If some character before the occurrence is not from the first 128, the
report is its title alone, or gives a later place. -/
theorem report_points_at (hsubject : e.subject? = some subject) (hne : subject ≠ "")
    (hline : ∀ c ∈ subject.toList, Text.isLineEnd c = false)
    (hfirst : Text.IsFirstOccurrence subject.toList source.toList before) :
    ∃ line column content, Text.Place source.toList before.length line column content ∧
      ((∀ c ∈ before ++ subject.toList, c.toNat < 128) →
        ∃ underline connection : List Char,
          (e.report source file).plainText = String.join
            (["Error: " ++ e.title,
              Report.locationRow file line column,
              Report.blanks ((toString (line + 1)).length + 2) ++ "│",
              " " ++ toString (line + 1) ++ " │ " ++ .ofList (Report.expanded (Report.trimEnd content)),
              Report.marginText (toString (line + 1)).length ++ .ofList underline,
              Report.marginText (toString (line + 1)).length ++ .ofList connection ++ " " ++ e.detail,
              .ofList (List.replicate ((toString (line + 1)).length + 2) '─') ++ "╯"].map (· ++ "\n")) ∧
          Report.Underlines (Report.trimEnd content) column (column + subject.length) underline) ∧
      ((∃ c ∈ before, 128 ≤ c.toNat) →
        (e.report source file).plainText = "Error: " ++ e.title ++ "\n" ∨
        ∃ line' column' rows, (line < line' ∨ line = line' ∧ column < column') ∧
          (e.report source file).plainText = String.join
            (("Error: " ++ e.title) :: Report.locationRow file line' column' :: rows |>.map (· ++ "\n"))) := by
  obtain ⟨after, hsource⟩ := hfirst.occurs
  have hlength : before.length < source.toList.length := by
    have hpos : 0 < subject.toList.length := List.length_pos_iff.2 fun hnil => hne (String.toList_inj.1 hnil)
    rw [← hsource, List.length_append, List.length_append]
    omega
  obtain ⟨line, column, content, hplace⟩ := Text.exists_place hlength
  refine ⟨line, column, content, hplace, fun hascii => ?_, fun hother => ?_⟩
  · obtain ⟨hrows, hchars⟩ := rows_report_of_ascii file hsubject hline hfirst hplace hascii
    let span : Report.Span := ⟨column, column + subject.length⟩
    refine ⟨(span.row (Report.trimEnd content) span.underlineMark).toList,
      (span.row (Report.trimEnd content) span.connectorMark).toList, ?_, Report.underlines_row ?_ fun k hk c hc => ?_⟩
    · rw [Report.plainText_eq_join_rows, hrows, String.ofList_toList, String.ofList_toList]
      rfl
    · have hpos : 0 < subject.length := Nat.pos_of_ne_zero fun hzero => hne (String.length_eq_zero_iff.1 hzero)
      omega
    · exact hchars k hk c (Report.getElem?_of_getElem?_trimEnd hc)
  · have hbehind : before.length < (e.report source file).start := by
      show _ < (e.span source).start
      rw [span_eq hsubject hfirst]
      exact Text.length_lt_byteCount hother
    rw [Report.plainText_eq_join_rows, Report.rows]
    cases hshown : if (e.report source file).spanInSource then
        Report.lineAt? (e.report source file).source (e.report source file).start else none with
    | none =>
      refine .inl ?_
      show String.join ["Error: " ++ e.title ++ "\n"] = _
      rw [String.join_cons, String.join_nil, String.append_empty]
    | some found =>
      have hfound := (Option.ite_none_right_eq_some.1 hshown).2
      exact .inr ⟨found.number, (e.report source file).start - found.offset, _,
        Report.later_of_lineAt? hplace hbehind hfound, rfl⟩

/-- The place of a variable behind a tab in the second line, and the report of one behind a letter of two bytes, which points
past the end of the source. -/
theorem report_points_at_tabbed :
    ((undeclared "a\n\tx = 1").rows[1]? = some "   ╭─[a:2:2]" ∧
      ∃ line column content underline, Text.Place "a\n\tx = 1".toList 3 line column content ∧
        Report.Underlines (Report.trimEnd content) column (column + 1) underline) ∧
    (undeclared "é\nx").rows[1]? = some "   ╭─[a:2:2]" ∧
      ∃ line column content, Text.Place "é\nx".toList 2 line column content ∧
        ((undeclared "é\nx").plainText = "Error: Type error\n" ∨
          ∃ line' column' rows, (line < line' ∨ line = line' ∧ column < column') ∧
            (undeclared "é\nx").plainText = String.join
              ("Error: Type error" :: Report.locationRow "a" line' column' :: rows |>.map (· ++ "\n"))) := by
  have hline : ∀ c ∈ "x".toList, Text.isLineEnd c = false := List.forall_mem_singleton.2 rfl
  refine ⟨⟨by decide +kernel, ?_⟩, by decide +kernel, ?_⟩
  · have hfirst : Text.IsFirstOccurrence "x".toList "a\n\tx = 1".toList "a\n\t".toList :=
      Text.firstOccurrence?_eq_some_iff.1 (by decide)
    obtain ⟨line, column, content, hplace, hascii, -⟩ :=
      @report_points_at (.build (.undeclaredIdentifier "x")) _ "a" "x" _ rfl (by decide) hline hfirst
    have hchars : ("a\n\t".toList ++ "x".toList).all (·.toNat < 128) = true := by decide
    obtain ⟨underline, -, -, hunderline⟩ := hascii fun c hc => of_decide_eq_true (List.all_eq_true.1 hchars c hc)
    exact ⟨line, column, content, underline, hplace, hunderline⟩
  · have hfirst : Text.IsFirstOccurrence "x".toList "é\nx".toList "é\n".toList :=
      Text.firstOccurrence?_eq_some_iff.1 (by decide)
    obtain ⟨line, column, content, hplace, -, hlater⟩ :=
      @report_points_at (.build (.undeclaredIdentifier "x")) _ "a" "x" _ rfl (by decide) hline hfirst
    exact ⟨line, column, content, hplace, hlater ⟨'é', by decide, by decide⟩⟩

/-- **White space is drawn as spaces.** The line has no tab, and no white space at its end, but a space that must not be
broken. The report shows it as an ordinary one. -/
theorem report_draws_white_space :
    Text.Place "x\u00a0= 1".toList 0 0 0 "x\u00a0= 1".toList ∧ '\t' ∉ "x\u00a0= 1".toList ∧
      Report.trimEnd "x\u00a0= 1".toList = "x\u00a0= 1".toList ∧
      (undeclared "x\u00a0= 1").rows[3]? = some " 1 │ x = 1" ∧ " 1 │ x = 1" ≠ " 1 │ " ++ "x\u00a0= 1" := by
  refine ⟨⟨by decide, by decide, by decide⟩, by decide, by decide +kernel, by decide +kernel, by decide⟩

end CompileError

end ImpC
