/-!
# The first occurrence of a text in another

`firstOccurrence?` gives what stands in front of the first occurrence. It is the shortest such part: the text sought does
not begin at any earlier place. `byteCount` measures a text in bytes, of which it has at least as many as characters.
-/

namespace ImpC.Text

/-- The characters in front of the first place where `sought` begins. -/
def firstOccurrence? (sought : List Char) : List Char → Option (List Char)
  | [] => if sought.isEmpty then some [] else none
  | c :: rest =>
    if sought.isPrefixOf (c :: rest) then some []
    else (firstOccurrence? sought rest).map (c :: ·)

/-- What `firstOccurrence?` finds stands in front of the text sought. -/
theorem append_sought_of_firstOccurrence? {sought text before : List Char}
    (h : firstOccurrence? sought text = some before) : before ++ sought <+: text := by
  induction text generalizing before with
  | nil =>
    simp only [firstOccurrence?] at h
    split at h <;> simp_all
  | cons c rest ih =>
    simp only [firstOccurrence?] at h
    split at h
    · rename_i hp
      simp only [Option.some.injEq] at h
      subst h
      simpa using hp
    · obtain ⟨b, hb, rfl⟩ := Option.map_eq_some_iff.1 h
      simpa using ih hb

/-! ### Bytes -/

/-- The number of bytes of a text. -/
def byteCount : List Char → Nat
  | [] => 0
  | c :: rest => c.utf8Size + byteCount rest

@[simp] theorem byteCount_nil : byteCount [] = 0 := rfl

@[simp] theorem byteCount_cons (c : Char) (text : List Char) : byteCount (c :: text) = c.utf8Size + byteCount text := rfl

@[simp] theorem byteCount_append (a b : List Char) : byteCount (a ++ b) = byteCount a + byteCount b := by
  induction a with
  | nil => simp
  | cons c a ih => simp [ih, Nat.add_assoc]

/-- A character takes at least one byte. -/
theorem length_le_byteCount (text : List Char) : text.length ≤ byteCount text := by
  induction text with
  | nil => simp
  | cons c text ih =>
    have := c.utf8Size_pos
    simp only [List.length_cons, byteCount_cons]
    omega

end ImpC.Text
