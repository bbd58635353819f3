import ImpC.Proofs.Build.Step

/-!
# Buffers and the texts in them

The memory of a running program, as far as its texts are concerned: a list of buffers, each with as many cells as it has
bytes. A cell of a local buffer holds nothing until it is written, and a text is read up to the zero that ends it.
Reading or writing outside of a buffer, and reading a cell that holds nothing, is a `Fault`, so what an access that
succeeds says includes that it stayed within its buffer.

A write replaces a stretch of one buffer (`Memory.put`). What follows it is known from three facts: the text just written
is there (`Memory.text_put`), the buffers other than the one written are as they were (`Memory.text_put_of_ne`), and a
second write that starts inside the first and reaches to its end or beyond joins with it (`Memory.put_put`). Buffers are
only ever added, and `Memory.Extends` says of a later memory that it still has the buffers of an earlier one unchanged.
-/

namespace ImpC.C

/-- A byte of a buffer, or the place behind its last one. -/
structure Pointer where
  /-- The buffer, by its position in the memory. -/
  block : Nat
  /-- The bytes of the buffer in front of the place. -/
  offset : Nat
  deriving DecidableEq, Repr, Inhabited

/-- The place a number of bytes further on. -/
def Pointer.advance (p : Pointer) (n : Nat) : Pointer := ⟨p.block, p.offset + n⟩

/-- A byte of a buffer, or nothing if it was never written. -/
abbrev Cell := Option UInt8

/-- Why a computation goes wrong. -/
inductive Fault where
  /-- An access outside of a buffer. -/
  | outside
  /-- A byte is read that was never written. -/
  | unwritten
  /-- A size is taken from a smaller one, and the difference wraps around. -/
  | wrapped
  /-- A text is appended to one in the same buffer. -/
  | overlap
  /-- An operation on something that it is not for. -/
  | misuse
  deriving DecidableEq, Repr, Inhabited

/-- The buffers that exist. -/
structure Memory where
  blocks : List (List Cell)
  deriving DecidableEq, Repr, Inhabited

/-- The bytes of a text with the zero that ends it. -/
def terminated (bytes : List UInt8) : List Cell := bytes.map some ++ [some 0]

@[simp] theorem length_terminated (bytes : List UInt8) : (terminated bytes).length = bytes.length + 1 := by
  simp [terminated]

/-- The bytes in front of the first zero. -/
def upToZero : List Cell → Except Fault (List UInt8)
  | [] => .error .outside
  | none :: _ => .error .unwritten
  | some byte :: rest => if byte = 0 then .ok [] else (byte :: ·) <$> upToZero rest

theorem upToZero_terminated {bytes : List UInt8} (h : 0 ∉ bytes) (rest : List Cell) :
    upToZero (terminated bytes ++ rest) = .ok bytes := by
  induction bytes with
  | nil => rfl
  | cons byte bytes ih =>
    obtain ⟨hbyte, hbytes⟩ := not_or.1 (mt List.mem_cons.2 h)
    have hrest : upToZero (terminated bytes ++ rest) = .ok bytes := ih hbytes
    change (if byte = 0 then _ else (byte :: ·) <$> upToZero (terminated bytes ++ rest)) = _
    rw [if_neg (Ne.symm hbyte), hrest]
    rfl

/-- A text can be read where its bytes are, none of them zero, and a zero behind them. -/
theorem exists_of_upToZero {cells : List Cell} {bytes : List UInt8} (h : upToZero cells = .ok bytes) :
    0 ∉ bytes ∧ ∃ rest, cells = terminated bytes ++ rest := by
  fun_induction upToZero cells generalizing bytes with
  | case1 => cases h
  | case2 => cases h
  | case3 rest =>
    cases h
    exact ⟨List.not_mem_nil, rest, rfl⟩
  | case4 byte cells hbyte ih =>
    -- the byte is part of the text if a text can be read behind it
    cases htail : upToZero cells with
    | error fault =>
      rw [htail] at h
      cases h
    | ok tail =>
      rw [htail] at h
      cases h
      obtain ⟨hzero, rest, rfl⟩ := ih htail
      exact ⟨mt List.mem_cons.1 (not_or.2 ⟨Ne.symm hbyte, hzero⟩), rest, rfl⟩

/-- A buffer with a stretch of it replaced. -/
def splice (offset : Nat) (cells block : List Cell) : List Cell :=
  block.take offset ++ cells ++ block.drop (offset + cells.length)

theorem length_splice {offset : Nat} {cells block : List Cell} (h : offset + cells.length ≤ block.length) :
    (splice offset cells block).length = block.length := by
  simp only [splice, List.length_append, List.length_take, List.length_drop]
  omega

theorem drop_splice {offset : Nat} {cells block : List Cell} (h : offset + cells.length ≤ block.length) :
    (splice offset cells block).drop offset = cells ++ block.drop (offset + cells.length) := by
  have hlength : (block.take offset).length = offset := by
    rw [List.length_take]
    omega
  rw [splice, List.append_assoc, List.drop_append_of_le_length (Nat.le_of_eq hlength.symm)]
  rw [List.drop_of_length_le (Nat.le_of_eq hlength), List.nil_append]

/-- Putting what is there changes nothing. -/
theorem splice_eq_self {offset : Nat} {cells rest block : List Cell} (h : block.drop offset = cells ++ rest) :
    splice offset cells block = block := by
  rw [splice, ← List.drop_drop, h, List.drop_left, List.append_assoc, ← h, List.take_append_drop]

/-- A second stretch that starts inside the first and reaches to its end makes one stretch with what is left of it. -/
theorem splice_splice {offset : Nat} {kept lost cells block : List Cell} (hlost : lost.length ≤ cells.length)
    (h : offset + kept.length + cells.length ≤ block.length) :
    splice (offset + kept.length) cells (splice offset (kept ++ lost) block) =
      splice offset (kept ++ cells) block := by
  have hfront : (block.take offset ++ kept).length = offset + kept.length := by
    rw [List.length_append, List.length_take]
    omega
  have hsplice : splice offset (kept ++ lost) block =
      (block.take offset ++ kept) ++ (lost ++ block.drop (offset + (kept ++ lost).length)) := by
    simp only [splice, List.append_assoc]
  have htake : (splice offset (kept ++ lost) block).take (offset + kept.length) = block.take offset ++ kept := by
    rw [hsplice, List.take_left' hfront]
  have hdrop : (splice offset (kept ++ lost) block).drop (offset + kept.length + cells.length) =
      block.drop (offset + (kept ++ cells).length) := by
    rw [hsplice, ← List.drop_drop, List.drop_left' hfront, List.drop_append, List.drop_of_length_le hlost,
      List.nil_append, List.drop_drop, List.length_append, List.length_append]
    congr 1
    omega
  rw [splice, htake, hdrop, splice, List.append_assoc (block.take offset)]

namespace Memory

/-- The cells from a place to the end of its buffer. -/
def cells (m : Memory) (p : Pointer) : Except Fault (List Cell) :=
  match m.blocks[p.block]? with
  | some block => if p.offset ≤ block.length then .ok (block.drop p.offset) else .error .outside
  | none => .error .outside

/-- The text at a place. -/
def text (m : Memory) (p : Pointer) : Except Fault (List UInt8) := m.cells p >>= upToZero

/-- A number of cells from a place on. -/
def read (m : Memory) (p : Pointer) (n : Nat) : Except Fault (List Cell) := do
  let cells ← m.cells p
  if n ≤ cells.length then .ok (cells.take n) else .error .outside

/-- The memory with a stretch of a buffer replaced. -/
def put (m : Memory) (p : Pointer) (cells : List Cell) : Memory := ⟨m.blocks.modify p.block (splice p.offset cells)⟩

/-- Writes to a place. -/
def write (m : Memory) (p : Pointer) (cells : List Cell) : Except Fault Memory := do
  let present ← m.cells p
  if cells.length ≤ present.length then .ok (m.put p cells) else .error .outside

/-- The bytes of a buffer. -/
def size? (m : Memory) (b : Nat) : Option Nat := m.blocks[b]?.map List.length

/-- The memory with a new buffer. -/
def allocate (m : Memory) (block : List Cell) : Memory := ⟨m.blocks ++ [block]⟩

/-- The place where a new buffer starts. -/
def fresh (m : Memory) : Pointer := ⟨m.blocks.length, 0⟩

/-- The place is in a buffer with so many bytes behind it. -/
def Fits (m : Memory) (p : Pointer) (n : Nat) : Prop :=
  ∃ block, m.blocks[p.block]? = some block ∧ p.offset + n ≤ block.length

variable {m m' m'' : Memory} {p q : Pointer} {n k : Nat} {bytes : List UInt8} {cs block : List Cell}

/-! ### Reading -/

theorem Fits.mono (h : m.Fits p n) (hk : k ≤ n) : m.Fits p k := by
  obtain ⟨block, hblock, hn⟩ := h
  exact ⟨block, hblock, by omega⟩

theorem Fits.advance (h : m.Fits p n) (hk : k ≤ n) : m.Fits (p.advance k) (n - k) := by
  obtain ⟨block, hblock, hn⟩ := h
  refine ⟨block, hblock, ?_⟩
  change p.offset + k + (n - k) ≤ block.length
  omega

theorem Fits.lt (h : m.Fits p n) : p.block < m.blocks.length := by
  obtain ⟨block, hblock, -⟩ := h
  exact (List.getElem?_eq_some_iff.1 hblock).1

theorem fits_of_size? {b : Nat} (h : m.size? b = some n) : m.Fits ⟨b, 0⟩ n := by
  obtain ⟨block, hblock, hlength⟩ := Option.map_eq_some_iff.1 h
  exact ⟨block, hblock, Nat.le_of_eq ((Nat.zero_add n).trans hlength.symm)⟩

theorem cells_eq_ok_iff :
    m.cells p = .ok cs ↔ ∃ block, m.blocks[p.block]? = some block ∧ p.offset ≤ block.length ∧
      cs = block.drop p.offset := by
  unfold Memory.cells
  constructor
  · intro h
    split at h
    · next buffer hbuffer =>
      split at h
      · next hp =>
        cases h
        exact ⟨buffer, hbuffer, hp, rfl⟩
      · cases h
    · cases h
  · rintro ⟨buffer, hbuffer, hp, rfl⟩
    rw [hbuffer]
    exact if_pos hp

/-- Where a number of bytes fits, there are at least as many cells. -/
theorem Fits.cells (h : m.Fits p n) : ∃ cs, m.cells p = .ok cs ∧ n ≤ cs.length := by
  obtain ⟨block, hblock, hn⟩ := h
  refine ⟨block.drop p.offset, cells_eq_ok_iff.2 ⟨block, hblock, by omega, rfl⟩, ?_⟩
  rw [List.length_drop]
  omega

/-- The cells at a place on which a text can be read. -/
theorem cells_of_text (h : m.text p = .ok bytes) : 0 ∉ bytes ∧ ∃ rest, m.cells p = .ok (terminated bytes ++ rest) := by
  obtain ⟨cs, hcells, hread⟩ := bind_eq_ok_iff.1 h
  obtain ⟨hzero, rest, rfl⟩ := exists_of_upToZero hread
  exact ⟨hzero, rest, hcells⟩

theorem fits_of_text (h : m.text p = .ok bytes) : m.Fits p (bytes.length + 1) := by
  obtain ⟨-, rest, hcells⟩ := cells_of_text h
  obtain ⟨block, hblock, hp, hrest⟩ := cells_eq_ok_iff.1 hcells
  have hlength := congrArg List.length hrest
  rw [List.length_append, length_terminated, List.length_drop] at hlength
  exact ⟨block, hblock, by omega⟩

/-- As much of a text as is asked for can be read, if it is no more than there is. -/
theorem read_of_text (h : m.text p = .ok bytes) (hn : n ≤ bytes.length) :
    m.read p n = .ok ((bytes.take n).map some) := by
  obtain ⟨-, rest, hcells⟩ := cells_of_text h
  have hlength : n ≤ (terminated bytes ++ rest).length := by
    rw [List.length_append, length_terminated]
    omega
  have htake : (terminated bytes ++ rest).take n = (bytes.take n).map some := by
    rw [terminated, List.append_assoc, List.take_append_of_le_length (by rwa [List.length_map]), List.map_take]
  exact bind_eq_ok_iff.2 ⟨_, hcells, (if_pos hlength).trans (congrArg _ htake)⟩

/-! ### Writing -/

theorem write_eq_put (h : m.Fits p cs.length) : m.write p cs = .ok (m.put p cs) := by
  obtain ⟨present, hpresent, hlength⟩ := h.cells
  exact bind_eq_ok_iff.2 ⟨present, hpresent, if_pos hlength⟩

theorem getElem?_put_of_ne {b : Nat} (h : p.block ≠ b) : (m.put p cs).blocks[b]? = m.blocks[b]? := by
  rw [put, List.getElem?_modify]
  simp only [if_neg h, Option.map_eq_map, Option.map_id_fun']
  rfl

theorem text_put_of_ne (h : p.block ≠ q.block) : (m.put p cs).text q = m.text q := by
  unfold text Memory.cells
  rw [getElem?_put_of_ne h]

theorem getElem?_put (h : m.blocks[p.block]? = some block) :
    (m.put p cs).blocks[p.block]? = some (splice p.offset cs block) := by
  rw [put, List.getElem?_modify, h]
  exact congrArg some (if_pos rfl)

/-- A write changes no size. -/
theorem size?_put (hp : m.Fits p cs.length) (b : Nat) : (m.put p cs).size? b = m.size? b := by
  unfold size?
  by_cases hb : p.block = b
  · subst hb
    obtain ⟨block, hblock, hcells⟩ := hp
    rw [getElem?_put hblock, hblock]
    exact congrArg some (length_splice hcells)
  · rw [getElem?_put_of_ne hb]

theorem Fits.put (h : m.Fits q n) (hp : m.Fits p cs.length) : (m.put p cs).Fits q n := by
  obtain ⟨block, hblock, hn⟩ := h
  have hsize : (m.put p cs).size? q.block = some block.length :=
    (size?_put hp q.block).trans (congrArg (Option.map List.length) hblock)
  obtain ⟨written, hwritten, hlength⟩ := Option.map_eq_some_iff.1 hsize
  exact ⟨written, hwritten, hlength.symm ▸ hn⟩

/-- A text that was written can be read. -/
theorem text_put (h : m.Fits p (bytes.length + 1)) (hzero : 0 ∉ bytes) :
    (m.put p (terminated bytes)).text p = .ok bytes := by
  obtain ⟨block, hblock, hn⟩ := h
  rw [← length_terminated] at hn
  have hcells : (m.put p (terminated bytes)).cells p =
      .ok (terminated bytes ++ block.drop (p.offset + (terminated bytes).length)) := by
    refine cells_eq_ok_iff.2 ⟨_, getElem?_put hblock, ?_, (drop_splice hn).symm⟩
    rw [length_splice hn]
    omega
  refine bind_eq_ok_iff.2 ⟨_, hcells, upToZero_terminated hzero _⟩

theorem put_of_text (h : m.text p = .ok bytes) : m.put p (terminated bytes) = m := by
  obtain ⟨-, rest, hcells⟩ := cells_of_text h
  obtain ⟨block, hblock, -, hdrop⟩ := cells_eq_ok_iff.1 hcells
  refine congrArg Memory.mk (List.ext_getElem? fun b => ?_)
  by_cases hb : p.block = b
  · subst hb
    rw [hblock, ← splice_eq_self hdrop.symm]
    exact getElem?_put hblock
  · exact getElem?_put_of_ne hb

/-- A write that starts inside another and reaches to its end makes one write with what is left of it. -/
theorem put_put {kept lost : List Cell} (hlost : lost.length ≤ cs.length)
    (h : m.Fits p (kept.length + cs.length)) :
    (m.put p (kept ++ lost)).put (p.advance kept.length) cs = m.put p (kept ++ cs) := by
  obtain ⟨block, hblock, hn⟩ := h
  have hsplice := @splice_splice p.offset kept lost cs block hlost (by omega)
  -- both sides change the one buffer only
  refine congrArg Memory.mk (List.ext_getElem? fun b => ?_)
  by_cases hb : p.block = b
  · subst hb
    have hfirst : (m.put p (kept ++ lost)).blocks[(p.advance kept.length).block]? = _ := getElem?_put hblock
    exact (getElem?_put hfirst).trans ((congrArg some hsplice).trans (getElem?_put hblock).symm)
  · exact (getElem?_put_of_ne (p := p.advance kept.length) hb).trans
      ((getElem?_put_of_ne hb).trans (getElem?_put_of_ne hb).symm)

/-! ### Later memories -/

/-- The buffers are still there and hold the same. -/
def Extends (m m' : Memory) : Prop := m.blocks <+: m'.blocks

theorem Extends.refl (m : Memory) : m.Extends m := List.prefix_rfl

theorem Extends.trans (h : m.Extends m') (h' : m'.Extends m'') : m.Extends m'' := List.IsPrefix.trans h h'

theorem Extends.length_le (h : m.Extends m') : m.blocks.length ≤ m'.blocks.length := List.IsPrefix.length_le h

theorem Extends.getElem? {b : Nat} (h : m.Extends m') (hb : m.blocks[b]? = some block) :
    m'.blocks[b]? = some block := by
  obtain ⟨added, hadded⟩ := h
  rw [← hadded, List.getElem?_append_left (List.getElem?_eq_some_iff.1 hb).1]
  exact hb

theorem Extends.size? {b : Nat} (h : m.Extends m') (hb : m.size? b = some n) : m'.size? b = some n := by
  obtain ⟨block, hblock, hlength⟩ := Option.map_eq_some_iff.1 hb
  exact Option.map_eq_some_iff.2 ⟨block, h.getElem? hblock, hlength⟩

theorem Extends.fits (h : m.Extends m') (hp : m.Fits p n) : m'.Fits p n := by
  obtain ⟨block, hblock, hn⟩ := hp
  exact ⟨block, h.getElem? hblock, hn⟩

theorem Extends.text (h : m.Extends m') (hp : m.text p = .ok bytes) : m'.text p = .ok bytes := by
  obtain ⟨cs, hcells, hread⟩ := bind_eq_ok_iff.1 hp
  obtain ⟨block, hblock, hle, rfl⟩ := cells_eq_ok_iff.1 hcells
  exact bind_eq_ok_iff.2 ⟨_, cells_eq_ok_iff.2 ⟨block, h.getElem? hblock, hle, rfl⟩, hread⟩

theorem extends_allocate (m : Memory) (block : List Cell) : m.Extends (m.allocate block) := List.prefix_append _ _

/-- A write to a later buffer leaves the earlier ones alone. -/
theorem Extends.put (h : m.Extends m') (hp : m.blocks.length ≤ p.block) : m.Extends (m'.put p cs) := by
  refine List.prefix_iff_getElem?.2 fun b hb => ?_
  rw [getElem?_put_of_ne (by omega)]
  exact h.getElem? (List.getElem?_eq_getElem hb)

theorem getElem?_allocate (m : Memory) (block : List Cell) :
    (m.allocate block).blocks[m.fresh.block]? = some block := List.getElem?_concat_length

theorem size?_fresh (m : Memory) (block : List Cell) : (m.allocate block).size? m.fresh.block = some block.length :=
  congrArg (Option.map List.length) (m.getElem?_allocate block)

theorem fits_fresh (m : Memory) (block : List Cell) : (m.allocate block).Fits m.fresh block.length :=
  fits_of_size? (m.size?_fresh block)

theorem text_fresh (h : upToZero block = .ok bytes) : (m.allocate block).text m.fresh = .ok bytes :=
  bind_eq_ok_iff.2 ⟨block, cells_eq_ok_iff.2 ⟨block, m.getElem?_allocate block, Nat.zero_le _, rfl⟩, h⟩

end Memory

end ImpC.C
