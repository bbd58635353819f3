import ImpC.Emit.Stmt
import ImpC.Proofs.C.TextRoutines

/-!
# Both ways of assigning a concatenation

An assignment `x = l + r` of texts is emitted in two ways. As a statement it is put together in a scratch buffer: a copy
of `l`, `strncat` of `r` with the room that is left, and a copy to the variable. Inside of an expression it goes through
`rt_text_concat` and a fresh buffer. The bounds of the three operations count the zero that ends a text differently, and
both ways are run here on the same state to see that they agree: `assign_concatenation` says that neither ever leaves a
buffer or takes a size below zero, and that both leave the same text in the variable.

The operands are variables, with any text in them, literals, and concatenations of such operands (`StandsFor`); they may
be or contain the variable that is assigned. What makes this work is that evaluating an operand only adds buffers, so it
finds and leaves every buffer as it was, and the place it gives is never in the scratch buffer (`Yields`).
-/

namespace ImpC

theorem EmitOptions.textCapacity_pos (o : EmitOptions) : 0 < o.textCapacity :=
  Nat.lt_of_lt_of_le Nat.two_pos o.two_le_textCapacity

theorem EmitOptions.concatCapacity_pos (o : EmitOptions) : 0 < o.concatCapacity :=
  Nat.lt_of_lt_of_le Nat.two_pos o.two_le_concatCapacity

namespace Emit

open C

/-- What an operand stands for in a state: the text in a variable, the bytes of a literal up to a zero among them, or a
concatenation as far as its buffer holds it. -/
inductive StandsFor (o : EmitOptions) (s : State) : Node → List UInt8 → Prop where
  | var {x : String} {ty : Option Ty} {block : Nat} {bytes : List UInt8} (name : s.names (.var x) = some (.array block))
      (text : s.memory.text ⟨block, 0⟩ = .ok bytes) : StandsFor o s ⟨.var x, ty⟩ bytes
  | text {t : String} {ty : Option Ty} {bytes : List UInt8} (cells : upToZero (literalCells t) = .ok bytes) :
      StandsFor o s ⟨.text t, ty⟩ bytes
  | concat {l r : Node} {first second : List UInt8} (left : StandsFor o s l first) (right : StandsFor o s r second) :
      StandsFor o s ⟨.binary .add l r, some .text⟩ ((first ++ second).take (o.concatCapacity - 1))

/-- Wherever the buffers of `start` are unchanged and its names stand for the same, but for that of the scratch buffer,
the expression gives a place at which the text is. It only adds buffers, and the place is in one of those or in one of
`start`. -/
def Yields (call : Routines) (start : State) (e : Expr) (bytes : List UInt8) : Prop :=
  ∀ s : State, start.memory.Extends s.memory → (∀ n, n ≠ .scratch → s.names n = start.names n) →
    ∃ p m, e.eval call s = .ok (.pointer p, { s with memory := m }) ∧ s.memory.Extends m ∧ m.text p = .ok bytes ∧
      (p.block < start.memory.blocks.length ∨ s.memory.blocks.length ≤ p.block)

/-- The state is the one before, but for new buffers and the text that is now in one of the old ones. -/
structure Leaves (s : State) (block : Nat) (bytes : List UInt8) (s' : State) : Prop where
  text : s'.memory.text ⟨block, 0⟩ = .ok bytes
  others : ∀ b < s.memory.blocks.length, b ≠ block → s'.memory.blocks[b]? = s.memory.blocks[b]?
  names : s'.names = s.names

variable {o : EmitOptions} {start s : State} {n l r : Node} {left right e : Expr} {bytes first second : List UInt8}
  {x : String} {depth block : Nat} {m : Memory}

/-! ### Operands -/

theorem zero_not_mem_append {p q : Pointer} {m' : Memory} (h : m.text p = .ok first) (h' : m'.text q = .ok second) :
    0 ∉ first ++ second := by
  rw [List.mem_append, not_or]
  exact ⟨(Memory.cells_of_text h).1, (Memory.cells_of_text h').1⟩

theorem yields_var {call : Routines} (hx : start.names (.var x) = some (.array block))
    (htext : start.memory.text ⟨block, 0⟩ = .ok bytes) : Yields call start (.name (.var x)) bytes := by
  intro s hmemory hnames
  have hvalue : s.value (.var x) = .ok (.pointer ⟨block, 0⟩) :=
    State.value_of_array ((hnames _ (by simp)).trans hx)
  exact ⟨⟨block, 0⟩, s.memory, Expr.eval_name hvalue, .refl _, hmemory.text htext, .inl (Memory.fits_of_text htext).lt⟩

theorem yields_text {call : Routines} {t : String} (h : upToZero (literalCells t) = .ok bytes) :
    Yields call start (.text t) bytes := by
  intro s _ _
  exact ⟨s.memory.fresh, s.memory.allocate (literalCells t), Expr.eval_text call s t, s.memory.extends_allocate _,
    Memory.text_fresh h, .inr (Nat.le_refl _)⟩

/-- A concatenation in a fresh buffer. -/
theorem yields_concat {capacity : Nat} (hpos : 0 < capacity) (hl : Yields (routines (depth + 2)) start left first)
    (hr : Yields (routines (depth + 2)) start right second) :
    Yields (routines (depth + 2)) start (.call (.helper .textConcat) [.buffer capacity, .size capacity, left, right])
      ((first ++ second).take (capacity - 1)) := by
  intro s hmemory hnames
  -- the fresh buffer comes first, and the operands are evaluated where it exists already
  let zeros := List.replicate capacity (some (0 : UInt8))
  have hfresh := s.memory.extends_allocate zeros
  obtain ⟨p, m₁, hp, hm₁, hfirst, -⟩ := hl ⟨s.memory.allocate zeros, s.names⟩ (hmemory.trans hfresh) hnames
  obtain ⟨q, m₂, hq, hm₂, hsecond, hplace⟩ := hr ⟨m₁, s.names⟩ (hmemory.trans (hfresh.trans hm₁)) hnames
  have hfits : m₂.Fits s.memory.fresh capacity := by
    have hfits := (hm₁.trans hm₂).fits (s.memory.fits_fresh zeros)
    rwa [List.length_replicate] at hfits
  -- the second operand is in a buffer of the start, or in one that is newer than that of the concatenation
  have hne : s.memory.fresh.block ≠ q.block := by
    have hlt : s.memory.blocks.length < m₁.blocks.length := (hm₁.fits (s.memory.fits_fresh zeros)).lt
    have hle : start.memory.blocks.length ≤ s.memory.blocks.length := hmemory.length_le
    change q.block < _ ∨ m₁.blocks.length ≤ q.block at hplace
    change s.memory.blocks.length ≠ q.block
    omega
  have hargs := Expr.evalAll_cons (Expr.eval_buffer _ s capacity) (Expr.evalAll_cons (Expr.eval_size _ _ capacity)
    (Expr.evalAll_cons hp (Expr.evalAll_cons hq (Expr.evalAll_nil _ _))))
  have hcall := routines_textConcat depth (hm₂.text hfirst) hsecond hne hpos hfits
  have hvalue := Expr.eval_call hargs hcall
  refine ⟨s.memory.fresh, _, hvalue, ?_, ?_, .inr (Nat.le_refl _)⟩
  · exact (hfresh.trans (hm₁.trans hm₂)).put (Nat.le_refl _)
  · exact Memory.text_put_cut hfits hpos (zero_not_mem_append hfirst hsecond)

/-- Operands are emitted, and what is emitted yields what they stand for. -/
theorem StandsFor.exists_yields (h : StandsFor o s n bytes) (depth : Nat) :
    ∃ e, expr o n = .ok e ∧ Yields (routines (depth + 2)) s e bytes := by
  induction h with
  | @var x _ block _ name text =>
    refine ⟨.name (.var x), ?_, yields_var name text⟩
    rw [expr]
  | @text t _ _ cells =>
    refine ⟨.text t, ?_, yields_text cells⟩
    rw [expr]
  | concat _ _ ihl ihr =>
    obtain ⟨left, hleft, hl⟩ := ihl
    obtain ⟨right, hright, hr⟩ := ihr
    refine ⟨_, ?_, yields_concat o.concatCapacity_pos hl hr⟩
    rw [expr, hleft, hright]
    rfl

/-! ### The two ways -/

theorem leaves_put {names : C.Name → Option Binding} (hm : s.memory.Extends m) (hnames : names = s.names)
    (hsize : s.memory.size? block = some o.textCapacity) (hzero : 0 ∉ bytes) :
    Leaves s block (bytes.take (o.textCapacity - 1))
      ⟨m.put ⟨block, 0⟩ (terminated (bytes.take (o.textCapacity - 1))), names⟩ where
  text := Memory.text_put_cut (hm.fits (Memory.fits_of_size? hsize)) o.textCapacity_pos hzero
  others b hb hne := by
    have hold := List.getElem?_eq_getElem hb
    rw [Memory.getElem?_put_of_ne (Ne.symm hne), hm.getElem? hold, hold]
  names := hnames

/-- Inside of an expression: the copy of a text that an operand yields. -/
theorem eval_copyText (hx : s.names (.var x) = some (.array block))
    (hsize : s.memory.size? block = some o.textCapacity) (he : Yields (routines (depth + 2)) s e bytes) :
    ∃ s', (copyText o (.var x) e).eval (routines (depth + 2)) s = .ok (.pointer ⟨block, 0⟩, s') ∧
      Leaves s block (bytes.take (o.textCapacity - 1)) s' := by
  obtain ⟨p, m, hp, hm, htext, -⟩ := he s (.refl _) fun _ _ => rfl
  have hfits := (hm.fits (Memory.fits_of_size? hsize)).mono (length_take_lt bytes o.textCapacity_pos)
  exact ⟨_, eval_textCopy (Expr.eval_name (State.value_of_array hx)) hp (Expr.eval_size _ _ _) htext
    o.textCapacity_pos hfits, leaves_put hm rfl hsize (Memory.cells_of_text htext).1⟩

/-- The two texts in the scratch buffer, which is none of the buffers of `start`. -/
theorem execAll_scratch {b : Nat} (hb : start.memory.blocks.length ≤ b) (hmemory : start.memory.Extends s.memory)
    (hnames : ∀ n, n ≠ .scratch → s.names n = start.names n) (hscratch : s.names .scratch = some (.array b))
    (hsize : s.memory.size? b = some o.concatCapacity) (hl : Yields (routines (depth + 2)) start left first)
    (hr : Yields (routines (depth + 2)) start right second) :
    ∃ m, Stmt.execAll (routines (depth + 2))
        [.expr (.call (.helper .textCopy) [.name .scratch, left, .sizeOf .scratch]),
         .expr (.call (.library .strncat) [.name .scratch, right, .room .scratch])] s =
          .ok (none, { s with memory := m }) ∧
      start.memory.Extends m ∧ m.text ⟨b, 0⟩ = .ok ((first ++ second).take (o.concatCapacity - 1)) := by
  have hpos := o.concatCapacity_pos
  have hvalue : ∀ m, State.value { s with memory := m } .scratch = .ok (.pointer ⟨b, 0⟩) :=
    fun m => State.value_of_array hscratch
  -- the first text
  obtain ⟨p, m₁, hp, hm₁, hfirst, -⟩ := hl s hmemory hnames
  have hsize₁ := hm₁.size? hsize
  have hfits₁ := Memory.fits_of_size? hsize₁
  have hcut : m₁.Fits ⟨b, 0⟩ ((first.take (o.concatCapacity - 1)).length + 1) := hfits₁.mono (length_take_lt _ hpos)
  have hcopy := eval_textCopy (Expr.eval_name (hvalue s.memory)) hp
    (Expr.eval_sizeOf (State.capacity_of_array hscratch hsize₁)) hfirst hpos hcut
  -- the second text, which is not in the scratch buffer
  obtain ⟨cut, hcutEq⟩ : ∃ cut, cut = first.take (o.concatCapacity - 1) := ⟨_, rfl⟩
  rw [← hcutEq] at hcopy hcut
  let m₂ := m₁.put ⟨b, 0⟩ (terminated cut)
  have hmemory₂ : start.memory.Extends m₂ := (hmemory.trans hm₁).put hb
  have hsize₂ : m₂.size? b = some o.concatCapacity :=
    (Memory.size?_put ((length_terminated cut).symm ▸ hcut) b).trans hsize₁
  obtain ⟨q, m₃, hq, hm₃, hsecond, hplace⟩ := hr { s with memory := m₂ } hmemory₂ hnames
  have hsize₃ := hm₃.size? hsize₂
  have hfits₃ := Memory.fits_of_size? hsize₃
  have hne : b ≠ q.block := by
    have hlt : b < m₂.blocks.length := (Memory.fits_of_size? hsize₂).lt
    change _ ∨ m₂.blocks.length ≤ q.block at hplace
    omega
  have hcutText : m₃.text ⟨b, 0⟩ = .ok cut := by
    subst hcutEq
    exact hm₃.text (Memory.text_put_cut hfits₁ hpos (Memory.cells_of_text hfirst).1)
  have hlt : cut.length < o.concatCapacity := hcutEq ▸ length_take_lt _ hpos
  have happend : cut ++ second.take (o.concatCapacity - cut.length - 1) =
      (first ++ second).take (o.concatCapacity - 1) := by
    rw [Nat.sub_right_comm, hcutEq, take_append_take_sub]
  have hroom := @eval_room ⟨b, 0⟩ cut o.concatCapacity (depth + 2) { s with memory := m₃ } .scratch (hvalue m₃)
    (State.capacity_of_array hscratch hsize₃) hcutText hlt
  have hstrncat := eval_strncat (Expr.eval_name (hvalue m₂)) hq hroom hcutText hsecond hne
    (happend.symm ▸ hfits₃.mono (length_take_lt _ hpos))
  rw [happend] at hstrncat
  refine ⟨_, Stmt.execAll_cons (Stmt.exec_expr hcopy) (Stmt.execAll_cons (Stmt.exec_expr hstrncat)
    (Stmt.execAll_nil _ _)), (hmemory₂.trans hm₃).put hb, ?_⟩
  exact Memory.text_put_cut hfits₃ hpos (zero_not_mem_append hfirst hsecond)

/-- As a statement: the concatenation in the scratch buffer, and the copy of it. -/
theorem exec_concatenation (hx : s.names (.var x) = some (.array block))
    (hsize : s.memory.size? block = some o.textCapacity) (hl : Yields (routines (depth + 2)) s left first)
    (hr : Yields (routines (depth + 2)) s right second) :
    ∃ s', (concatenation o x left right).exec (routines (depth + 2)) s = .ok (none, s') ∧
      Leaves s block (((first ++ second).take (o.concatCapacity - 1)).take (o.textCapacity - 1)) s' := by
  let names := (s.declare .scratch (.array s.memory.fresh.block)).names
  have hnames : ∀ n, n ≠ .scratch → names n = s.names n := fun n hn => if_neg hn
  have hscratch : names .scratch = some (.array s.memory.fresh.block) := s.names_declare _ _
  let unwritten : List Cell := List.replicate o.concatCapacity none
  have hempty : (s.memory.allocate unwritten).size? s.memory.fresh.block = some o.concatCapacity := by
    rw [Memory.size?_fresh, List.length_replicate]
  -- the operands do not see the scratch buffer: they are the same in front of its declaration and behind it
  obtain ⟨m, hboth, hm, htext⟩ := @execAll_scratch o s ⟨s.memory.allocate unwritten, names⟩ left right first second depth
    s.memory.fresh.block (Nat.le_refl _) (s.memory.extends_allocate unwritten) hnames hscratch hempty hl hr
  have hfits := (hm.fits (Memory.fits_of_size? hsize)).mono
    (length_take_lt ((first ++ second).take (o.concatCapacity - 1)) o.textCapacity_pos)
  have hvar : State.value ⟨m, names⟩ (.var x) = .ok (.pointer ⟨block, 0⟩) :=
    State.value_of_array ((hnames _ (by simp)).trans hx)
  have hbuffer : State.value ⟨m, names⟩ .scratch = .ok (.pointer s.memory.fresh) := State.value_of_array hscratch
  have hcopy := @eval_textCopy _ _ _ _ (depth + 1) _ _ _ _ _ _ _ (Expr.eval_name hvar) (Expr.eval_name hbuffer)
    (Expr.eval_size _ _ o.textCapacity) htext o.textCapacity_pos hfits
  have hbody := Stmt.execAll_cons (Stmt.exec_buffer (routines (depth + 2)) s .scratch o.concatCapacity)
    (Stmt.execAll_append hboth (Stmt.execAll_cons (Stmt.exec_expr hcopy) (Stmt.execAll_nil _ _)))
  refine ⟨_, Stmt.exec_block hbody, leaves_put hm ?_ hsize (Memory.cells_of_text htext).1⟩
  -- only the name of the scratch buffer was declared
  funext k
  by_cases hk : k = .scratch
  · exact if_pos (hk ▸ List.mem_singleton_self _)
  · exact (if_neg (mt List.mem_singleton.1 hk)).trans (hnames k hk)

/-- **Both ways agree.** An assignment of a concatenation, as a statement and inside of an expression, runs without a
fault, and both leave in the variable the two texts in sequence, cut off first to what the buffer of a concatenation holds
beside the zero and then to what the variable does. Nothing else that exists is changed. -/
theorem assign_concatenation (o : EmitOptions) (readTy : String → Option Ty) (result : Option Ty) (depth : Nat)
    {s : State} {x : String} {l r : Node} {first second : List UInt8} {block : Nat} (hl : StandsFor o s l first)
    (hr : StandsFor o s r second) (hx : s.names (.var x) = some (.array block))
    (hsize : s.memory.size? block = some o.textCapacity) :
    ∃ left right s₁ s₂, expr o l = .ok left ∧ expr o r = .ok right ∧
      stmt o readTy result ⟨.assign x ⟨.binary .add l r, some .text⟩, some .text⟩ =
        .ok [concatenation o x left right] ∧
      expr o ⟨.assign x ⟨.binary .add l r, some .text⟩, some .text⟩ =
        .ok (copyText o (.var x) (.call (.helper .textConcat)
          [.buffer o.concatCapacity, .size o.concatCapacity, left, right])) ∧
      (concatenation o x left right).exec (routines (depth + 2)) s = .ok (none, s₁) ∧
      (copyText o (.var x) (.call (.helper .textConcat)
        [.buffer o.concatCapacity, .size o.concatCapacity, left, right])).eval (routines (depth + 2)) s =
          .ok (.pointer ⟨block, 0⟩, s₂) ∧
      Leaves s block (((first ++ second).take (o.concatCapacity - 1)).take (o.textCapacity - 1)) s₁ ∧
      Leaves s block (((first ++ second).take (o.concatCapacity - 1)).take (o.textCapacity - 1)) s₂ := by
  obtain ⟨left, hleft, hyieldsLeft⟩ := hl.exists_yields depth
  obtain ⟨right, hright, hyieldsRight⟩ := hr.exists_yields depth
  obtain ⟨s₁, hstatement, hleaves₁⟩ := exec_concatenation hx hsize hyieldsLeft hyieldsRight
  obtain ⟨s₂, hexpression, hleaves₂⟩ := eval_copyText hx hsize
    (yields_concat o.concatCapacity_pos hyieldsLeft hyieldsRight)
  refine ⟨left, right, s₁, s₂, hleft, hright, ?_, ?_, hstatement, hexpression, hleaves₁, hleaves₂⟩
  · rw [stmt, assignment, hleft, hright]
    rfl
  · rw [expr, expr, hleft, hright]
    rfl

/-- Four bytes for a variable and six for a concatenation. -/
def narrow : EmitOptions := ⟨4, 6, 4, by decide, by decide⟩

/-- One variable, filled by the text `abc`. -/
def filled : State := ⟨⟨[terminated [97, 98, 99]]⟩, fun n => if n = .var "x" then some (.array 0) else none⟩

/-- In `x = ("d" + x) + x` the operands are the variable that is assigned, both cuts are made, and `dab` is left. -/
theorem assign_concatenation_narrow :
    let x : Node := ⟨.var "x", some .text⟩
    let sum : Node := ⟨.binary .add ⟨.binary .add ⟨.text "d", some .text⟩ x, some .text⟩ x, some .text⟩
    StandsFor narrow filled ⟨.binary .add ⟨.text "d", some .text⟩ x, some .text⟩ [100, 97, 98, 99] ∧
      StandsFor narrow filled x [97, 98, 99] ∧ filled.memory.size? 0 = some narrow.textCapacity ∧
      ∃ t e s₁ s₂, stmt narrow (fun _ => none) none ⟨.assign "x" sum, some .text⟩ = .ok [t] ∧
        expr narrow ⟨.assign "x" sum, some .text⟩ = .ok e ∧ t.exec (routines 2) filled = .ok (none, s₁) ∧
        e.eval (routines 2) filled = .ok (.pointer ⟨0, 0⟩, s₂) ∧
        s₁.memory.text ⟨0, 0⟩ = .ok [100, 97, 98] ∧ s₂.memory.text ⟨0, 0⟩ = .ok [100, 97, 98] := by
  intro x sum
  have hname : filled.names (.var "x") = some (.array 0) := rfl
  have hx : StandsFor narrow filled x [97, 98, 99] := .var hname rfl
  have hd : StandsFor narrow filled ⟨.text "d", some .text⟩ [100] := .text rfl
  have hleft := hd.concat hx
  obtain ⟨left, right, s₁, s₂, -, -, hstmt, hexpr, hexec, heval, hleaves₁, hleaves₂⟩ :=
    assign_concatenation narrow (fun _ => none) none 0 hleft hx hname rfl
  exact ⟨hleft, hx, rfl, _, _, s₁, s₂, hstmt, hexpr, hexec, heval, hleaves₁.text, hleaves₂.text⟩

end Emit

end ImpC
