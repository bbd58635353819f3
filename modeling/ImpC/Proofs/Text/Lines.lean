import ImpC.Text.Lines
import ImpC.Text.Occurrence

/-!
# Places in a text

A character of a text stands in a line, at a column (`Text.Place`). Every character has such a place
(`Text.exists_place`). Only a terminator ends a line that is not the last (`Text.isLineEnd_of_drop_ne_nil`), and so what
has no terminator in it stands in one line as a whole (`Text.Place.exists_content`).

In front of the first occurrence of something there is the shortest part of the text that it can follow, and this is what
is found (`Text.firstOccurrence?_eq_some_iff`). Measured in bytes, this part is as long as in characters if all of these
are from the first 128, and longer otherwise.
-/

namespace ImpC.Text

variable {text before sought after content : List Char} {position line column : Nat}

/-! ### Lines and columns -/

/-- The character at a position stands in the given line at the given column, all of them counted from zero. The content
of a line includes its terminator. -/
structure Place (text : List Char) (position line column : Nat) (content : List Char) : Prop where
  content_eq : (splitLines text)[line]? = some content
  position_eq : ((splitLines text).take line).flatten.length + column = position
  column_lt : column < content.length

theorem exists_place_flatten {lines : List (List Char)} (h : position < lines.flatten.length) :
    ∃ line column content, lines[line]? = some content ∧ (lines.take line).flatten.length + column = position ∧
      column < content.length := by
  induction lines generalizing position with
  | nil => exact absurd h (Nat.not_lt_zero _)
  | cons first rest ih =>
    rw [List.flatten_cons, List.length_append] at h
    by_cases hfirst : position < first.length
    · exact ⟨0, position, first, rfl, by simp, hfirst⟩
    · have hrest : position - first.length < rest.flatten.length := by omega
      obtain ⟨line, column, content, hcontent, hposition, hcolumn⟩ := ih hrest
      refine ⟨line + 1, column, content, hcontent, ?_, hcolumn⟩
      rw [List.take_succ_cons, List.flatten_cons, List.length_append]
      omega

/-- **Every character has a place.** -/
theorem exists_place (h : position < text.length) : ∃ line column content, Place text position line column content := by
  rw [← flatten_splitLines text] at h
  obtain ⟨line, column, content, hcontent, hposition, hcolumn⟩ := exists_place_flatten h
  exact ⟨line, column, content, hcontent, hposition, hcolumn⟩

/-- The text around a line. -/
theorem append_content_append (h : (splitLines text)[line]? = some content) :
    text = ((splitLines text).take line).flatten ++ (content ++ ((splitLines text).drop (line + 1)).flatten) := by
  obtain ⟨hlt, hget⟩ := List.getElem?_eq_some_iff.1 h
  calc text = ((splitLines text).take line ++ (splitLines text).drop line).flatten := by
        rw [List.take_append_drop, flatten_splitLines]
    _ = ((splitLines text).take line).flatten ++ (content ++ ((splitLines text).drop (line + 1)).flatten) := by
        rw [List.flatten_append, List.drop_eq_getElem_cons hlt, List.flatten_cons, hget]

/-- A line with others behind it ends with a terminator. -/
theorem isLineEnd_of_drop_ne_nil (h : (splitLines text)[line]? = some content)
    (hnext : (splitLines text).drop (line + 1) ≠ []) : ∃ init c, content = init ++ [c] ∧ isLineEnd c = true := by
  fun_induction splitLines text generalizing line content with
  | case1 => cases h
  | case2 rest ih =>
    cases line with
    | zero =>
      cases h
      exact ⟨['\r'], '\n', rfl, rfl⟩
    | succ line => exact ih h hnext
  | case3 c rest _ hend ih =>
    cases line with
    | zero =>
      cases h
      exact ⟨[], c, rfl, hend⟩
    | succ line => exact ih h hnext
  | case4 c rest _ hend ih =>
    -- the character belongs to the first of the lines behind it
    generalize splitLines rest = lines at h hnext ih
    cases lines with
    | nil => exact absurd (by simp [consLine]) hnext
    | cons first others =>
      cases line with
      | zero =>
        cases h
        obtain ⟨init, d, rfl, hd⟩ := @ih first 0 rfl hnext
        exact ⟨c :: init, d, rfl, hd⟩
      | succ line => exact @ih content (line + 1) h hnext

/-- **What has no terminator stands in one line.** In front of it there is a part of the line, which ends what stands in
front of it in the text. -/
theorem Place.exists_content (h : Place (before ++ (sought ++ after)) before.length line column content)
    (hsought : ∀ c ∈ sought, isLineEnd c = false) :
    ∃ left rest, content = left ++ (sought ++ rest) ∧ left.length = column ∧ left <:+ before := by
  obtain ⟨left, right, hcontent, hleft, hright⟩ :
      ∃ left right, content = left ++ right ∧ left.length = column ∧ right ≠ [] := by
    refine ⟨content.take column, content.drop column, (List.take_append_drop _ _).symm, ?_, ?_⟩
    · rw [List.length_take, Nat.min_eq_left (Nat.le_of_lt h.column_lt)]
    · rw [ne_eq, List.drop_eq_nil_iff]
      exact Nat.not_le_of_lt h.column_lt
  have htext := append_content_append h.content_eq
  have hposition := h.position_eq
  rw [hcontent, List.append_assoc, ← List.append_assoc _ left] at htext
  obtain ⟨hbefore, hbehind⟩ := List.append_inj htext (by rw [List.length_append, hleft, hposition])
  have hsuffix : left <:+ before := ⟨_, hbefore.symm⟩
  obtain ⟨rest, hrest, -⟩ | ⟨rest, hsplit, hnext⟩ := List.append_eq_append_iff.1 hbehind
  · exact ⟨left, rest, by rw [hcontent, hrest], hleft, hsuffix⟩
  · by_cases hlast : (splitLines (before ++ (sought ++ after))).drop (line + 1) = []
    · rw [hlast, List.flatten_nil] at hnext
      obtain ⟨rfl, -⟩ := List.append_eq_nil_iff.1 hnext.symm
      exact ⟨left, [], by rw [hcontent, hsplit, List.append_nil, List.append_nil], hleft, hsuffix⟩
    · -- the line would end inside of what is sought, and with a terminator
      obtain ⟨init, c, hend, hc⟩ := isLineEnd_of_drop_ne_nil h.content_eq hlast
      obtain ⟨inner, d, hd⟩ := (List.eq_nil_or_concat right).resolve_left hright
      rw [List.concat_eq_append] at hd
      obtain rfl : d = c := by
        rw [hcontent, hd, ← List.append_assoc] at hend
        exact (List.cons.inj (List.append_inj' hend rfl).2).1
      have hmem : d ∈ sought := by
        rw [hsplit, hd]
        exact List.mem_append_left _ (List.mem_append_right _ (List.mem_singleton.2 rfl))
      rw [hsought d hmem] at hc
      cases hc

/-! ### First occurrences -/

/-- The part of a text in front of the first place where something begins. -/
structure IsFirstOccurrence (sought text before : List Char) : Prop where
  occurs : before ++ sought <+: text
  first : ∀ p, p ++ sought <+: text → before.length ≤ p.length

theorem isFirstOccurrence_of_firstOccurrence? (h : firstOccurrence? sought text = some before) :
    IsFirstOccurrence sought text before := by
  refine ⟨append_sought_of_firstOccurrence? h, ?_⟩
  induction text generalizing before with
  | nil =>
    unfold firstOccurrence? at h
    obtain ⟨-, hbefore⟩ := Option.ite_none_right_eq_some.1 h
    cases hbefore
    exact fun p _ => Nat.zero_le _
  | cons c text ih =>
    intro p hp
    unfold firstOccurrence? at h
    split at h
    · cases h
      exact Nat.zero_le _
    · next hprefix =>
      obtain ⟨rest, hrest, rfl⟩ := Option.map_eq_some_iff.1 h
      cases p with
      | nil => exact absurd (List.isPrefixOf_iff_prefix.2 hp) hprefix
      | cons d p => exact Nat.succ_le_succ (ih hrest p (List.cons_prefix_cons.1 hp).2)

/-- What occurs in a text is found. -/
theorem exists_firstOccurrence? (h : sought <:+: text) : ∃ before, firstOccurrence? sought text = some before := by
  induction text with
  | nil =>
    rw [List.infix_nil.1 h]
    exact ⟨[], rfl⟩
  | cons c text ih =>
    unfold firstOccurrence?
    split
    · exact ⟨[], rfl⟩
    · next hprefix =>
      obtain h | h := List.infix_cons_iff.1 h
      · exact absurd (List.isPrefixOf_iff_prefix.2 h) hprefix
      · obtain ⟨before, hbefore⟩ := ih h
        exact ⟨c :: before, by rw [hbefore, Option.map_some]⟩

/-- **What is found is the first occurrence**, and it is found wherever there is one. -/
theorem firstOccurrence?_eq_some_iff :
    firstOccurrence? sought text = some before ↔ IsFirstOccurrence sought text before := by
  refine ⟨isFirstOccurrence_of_firstOccurrence?, fun h => ?_⟩
  have hinfix : sought <:+: text := (List.suffix_append before sought).isInfix.trans h.occurs.isInfix
  obtain ⟨found, hfound⟩ := exists_firstOccurrence? hinfix
  have hfirst := isFirstOccurrence_of_firstOccurrence? hfound
  -- both are the beginning of the text, and of one length
  have hlength : found.length = before.length := Nat.le_antisymm (hfirst.first _ h.occurs) (h.first _ hfirst.occurs)
  have hfound' := List.prefix_iff_eq_take.1 ((List.prefix_append found sought).trans hfirst.occurs)
  have hbefore' := List.prefix_iff_eq_take.1 ((List.prefix_append before sought).trans h.occurs)
  rw [hfound, hfound', hlength, ← hbefore']

/-! ### Bytes and characters -/

theorem utf8Size_eq_one_iff_lt {c : Char} : c.utf8Size = 1 ↔ c.toNat < 128 := by
  rw [Char.utf8Size_eq_one_iff, UInt32.le_iff_toNat_le]
  exact Nat.lt_succ_iff.symm

theorem byteCount_eq_length (h : ∀ c ∈ text, c.toNat < 128) : byteCount text = text.length := by
  induction text with
  | nil => rfl
  | cons c text ih =>
    obtain ⟨hc, htext⟩ := List.forall_mem_cons.1 h
    rw [byteCount_cons, ih htext, utf8Size_eq_one_iff_lt.2 hc, List.length_cons, Nat.add_comm]

/-- A character that is not from the first 128 takes more than one byte. -/
theorem length_lt_byteCount (h : ∃ c ∈ text, 128 ≤ c.toNat) : text.length < byteCount text := by
  induction text with
  | nil =>
    obtain ⟨c, hc, -⟩ := h
    exact absurd hc List.not_mem_nil
  | cons d text ih =>
    have hd := d.utf8Size_pos
    have htext := length_le_byteCount text
    rw [byteCount_cons, List.length_cons]
    obtain ⟨c, hc, hlarge⟩ := h
    obtain rfl | hc := List.mem_cons.1 hc
    · have hone : c.utf8Size ≠ 1 := fun hone => Nat.not_lt_of_le hlarge (utf8Size_eq_one_iff_lt.1 hone)
      omega
    · have hrest := ih ⟨c, hc, hlarge⟩
      omega

theorem utf8ByteSize_eq_byteCount (s : String) : s.utf8ByteSize = byteCount s.toList := by
  suffices h : ∀ cs, (String.ofList cs).utf8ByteSize = byteCount cs by
    rw [← h, String.ofList_toList]
  intro cs
  induction cs with
  | nil => rfl
  | cons c cs ih =>
    have hcons : String.ofList (c :: cs) = .singleton c ++ .ofList cs := String.toList_inj.1 (by simp)
    rw [hcons, String.utf8ByteSize_append, String.utf8ByteSize_singleton, ih, byteCount_cons]

end ImpC.Text
