import ImpC.Proofs.C.Execution

/-!
# The helper routines for texts

What `rt_text_copy` and `rt_text_concat` do to the memory, from running their definitions. A copy leaves at its target as
much of the text as the capacity has room for beside the zero, and the zero behind it (`routines_textCopy`); the source
may be part of the same buffer. A concatenation leaves the two texts one behind the other, cut off where the buffer ends
(`routines_textConcat`). Neither reads or writes outside of a buffer or takes a size below zero, as that would be a fault.
The first text is cut off too, and then the room left for the second is none: both cuts together are one cut of the
two texts in sequence (`take_append_take_sub`).
-/

namespace ImpC.C

/-- A cut of the first part, and of the second to what is left, is one cut of both. -/
theorem take_append_take_sub {α : Type} (l r : List α) (n : Nat) :
    l.take n ++ r.take (n - (l.take n).length) = (l ++ r).take n := by
  rw [List.take_append, List.length_take]
  congr 2
  omega

/-- A text that is cut off leaves room for the zero. -/
theorem length_take_lt (bytes : List UInt8) {cap : Nat} (hpos : 0 < cap) : (bytes.take (cap - 1)).length < cap := by
  rw [List.length_take]
  omega

theorem upToBound_of_upToZero {cells : List Cell} {bytes : List UInt8} (n : Nat) (h : upToZero cells = .ok bytes) :
    upToBound n cells = .ok (bytes.take n) := by
  fun_induction upToBound n cells generalizing bytes with
  | case1 => rfl
  | case2 => cases h
  | case3 => cases h
  | case4 =>
    cases h
    rfl
  | case5 n byte cells hbyte ih =>
    rw [upToZero, if_neg hbyte] at h
    cases htail : upToZero cells with
    | error fault =>
      rw [htail] at h
      cases h
    | ok tail =>
      rw [htail] at h
      cases h
      rw [ih htail]
      rfl

namespace Memory

variable {m : Memory} {p dst src : Pointer} {l r bytes : List UInt8} {n : Nat}

/-- A text written over the zero of another is its continuation. -/
theorem put_terminated_append (h : m.Fits p ((l ++ r).length + 1)) :
    (m.put p (terminated l)).put (p.advance l.length) (terminated r) = m.put p (terminated (l ++ r)) := by
  have hlost : [some (0 : UInt8)].length ≤ (terminated r).length := by
    rw [length_terminated]
    exact Nat.le_add_left 1 r.length
  have hfits : m.Fits p ((l.map some).length + (terminated r).length) := by
    rwa [List.length_map, length_terminated, ← Nat.add_assoc, ← List.length_append]
  have hput := put_put hlost hfits
  rw [List.length_map] at hput
  rw [terminated, hput, terminated, terminated, List.map_append, List.append_assoc]

/-- A text that was cut off to fit can be read. -/
theorem text_put_cut (h : m.Fits p n) (hpos : 0 < n) (hzero : 0 ∉ bytes) :
    (m.put p (terminated (bytes.take (n - 1)))).text p = .ok (bytes.take (n - 1)) :=
  text_put (h.mono (length_take_lt _ hpos)) fun hmem => hzero (List.mem_of_mem_take hmem)

/-- Two cut texts one behind the other are one cut text. -/
theorem put_cut_append {cap : Nat} (h : m.Fits p cap) (hpos : 0 < cap) :
    (m.put p (terminated (l.take (cap - 1)))).put (p.advance (l.take (cap - 1)).length)
        (terminated (r.take (cap - (l.take (cap - 1)).length - 1))) =
      m.put p (terminated ((l ++ r).take (cap - 1))) := by
  have hcut := take_append_take_sub l r (cap - 1)
  have hfits : m.Fits p ((l.take (cap - 1) ++ r.take (cap - 1 - (l.take (cap - 1)).length)).length + 1) :=
    h.mono (hcut.symm ▸ length_take_lt _ hpos)
  rw [Nat.sub_right_comm cap, put_terminated_append hfits, hcut]

/-- The zero behind the bytes of a text ends it. -/
theorem write_zero (h : m.Fits p (l.length + 1)) :
    (m.put p (l.map some)).write (p.advance l.length) [some 0] = .ok (m.put p (terminated l)) := by
  have hlength : (l.map (some : UInt8 → Cell)).length = l.length := List.length_map _
  have hfits : m.Fits p ((l.map (some : UInt8 → Cell)).length + 1) := hlength.symm ▸ h
  have hroom : (m.put p (l.map some)).Fits (p.advance l.length) [some (0 : UInt8)].length := by
    have hadvance := (h.put (hfits.mono (Nat.le_add_right _ 1))).advance (Nat.le_add_right l.length 1)
    rwa [Nat.add_sub_cancel_left] at hadvance
  have hput := @put_put m p [some 0] (l.map some) [] (Nat.zero_le _) hfits
  rw [List.append_nil, hlength] at hput
  rw [write_eq_put hroom, hput, terminated]

theorem library_strlen (h : m.text src = .ok bytes) :
    m.library .strlen [.pointer src] = .ok (.size bytes.length, m) :=
  bind_eq_ok_iff.2 ⟨bytes, h, rfl⟩

/-- Moving no more than a text has moves the beginning of the text. -/
theorem library_memmove (hsrc : m.text src = .ok bytes) (hn : n ≤ bytes.length) (hdst : m.Fits dst n) :
    m.library .memmove [.pointer dst, .pointer src, .size n] =
      .ok (.pointer dst, m.put dst ((bytes.take n).map some)) := by
  have hlength : ((bytes.take n).map some).length = n := by
    rw [List.length_map, List.length_take, Nat.min_eq_left hn]
  have hwrite := @write_eq_put m dst ((bytes.take n).map some) (hlength.symm ▸ hdst)
  exact bind_eq_ok_iff.2 ⟨_, read_of_text hsrc hn, bind_eq_ok_iff.2 ⟨_, hwrite, rfl⟩⟩

/-- Appending at most a number of bytes continues the text with as many of the other one. -/
theorem library_strncat (hdst : m.text dst = .ok l) (hsrc : m.text src = .ok r) (hne : dst.block ≠ src.block)
    (hfits : m.Fits dst ((l ++ r.take n).length + 1)) :
    m.library .strncat [.pointer dst, .pointer src, .size n] =
      .ok (.pointer dst, m.put dst (terminated (l ++ r.take n))) := by
  obtain ⟨cells, hcells, hread⟩ := bind_eq_ok_iff.1 hsrc
  have hroom : m.Fits (dst.advance l.length) (terminated (r.take n)).length := by
    rw [List.length_append, Nat.add_assoc] at hfits
    have hadvance := hfits.advance (Nat.le_add_right l.length _)
    rwa [Nat.add_sub_cancel_left, ← length_terminated] at hadvance
  have hput : m.put (dst.advance l.length) (terminated (r.take n)) = m.put dst (terminated (l ++ r.take n)) := by
    have happend := put_terminated_append hfits
    rwa [put_of_text hdst] at happend
  have hwrite := (write_eq_put hroom).trans (congrArg _ hput)
  refine bind_eq_ok_iff.2 ⟨l, hdst, bind_eq_ok_iff.2 ⟨cells, hcells,
    bind_eq_ok_iff.2 ⟨_, upToBound_of_upToZero n hread, ?_⟩⟩⟩
  exact (if_neg hne).trans (bind_eq_ok_iff.2 ⟨_, hwrite, rfl⟩)

end Memory

section Routines

variable {m : Memory} {dst src buf left right : Pointer} {bytes l r : List UInt8} {n cap depth : Nat}
  {s s₁ s₂ s₃ : State} {e₁ e₂ e₃ : Expr}

theorem eval_strlen (h : e₁.eval (routines depth) s = .ok (.pointer src, s₁)) (hsrc : s₁.memory.text src = .ok bytes) :
    (Expr.call (.library .strlen) [e₁]).eval (routines depth) s = .ok (.size bytes.length, s₁) :=
  Expr.eval_call (Expr.evalAll_cons h (Expr.evalAll_nil _ s₁))
    ((routines_library depth .strlen _ _).trans (Memory.library_strlen hsrc))

/-- A copy that would not fit is shortened to what the capacity has room for beside the zero. -/
theorem exec_shorten {call : Routines}
    (hlen : s.names (.inner "len") = some (.scalar (some (.size bytes.length))))
    (hcap : s.value (.inner "cap") = .ok (.size cap)) (hpos : 0 < cap) :
    ∃ s', (Stmt.branch (.binary .ge (.inner "len") (.inner "cap"))
        [.expr (.assign (.inner "len") (.binary .sub (.inner "cap") (.size 1)))] none).exec call s = .ok (none, s') ∧
      s'.memory = s.memory ∧ s'.value (.inner "len") = .ok (.size (bytes.take (cap - 1)).length) ∧
      ∀ n, n ≠ .inner "len" → s'.value n = s.value n := by
  have hcompare : (Expr.binary .ge (.inner "len") (.inner "cap")).eval call s =
      .ok (.size (if cap ≤ bytes.length then 1 else 0), s) :=
    Expr.eval_binary (Expr.eval_name (State.value_eq_ok hlen)) (Expr.eval_name hcap) rfl
  by_cases hlong : cap ≤ bytes.length
  -- one byte of the capacity is for the zero, and there is one as it is not zero
  · rw [if_pos hlong] at hcompare
    have hsub : (Expr.binary .sub (.inner "cap") (.size 1)).eval call s = .ok (.size (cap - 1), s) :=
      Expr.eval_binary (Expr.eval_name hcap) (Expr.eval_size _ _ 1) (s.memory.operate_sub hpos)
    have hassign := Expr.eval_assign hsub (State.assign_eq_declare hlen)
    have hbody := Stmt.execAll_cons (Stmt.exec_expr hassign) (Stmt.execAll_nil call _)
    refine ⟨_, Stmt.exec_branch_of_holds hcompare rfl (State.inside_eq_ok hbody), rfl, ?_, ?_⟩
    · have hlength : (bytes.take (cap - 1)).length = cap - 1 := by
        rw [List.length_take]
        omega
      rw [hlength]
      exact State.value_declare s _ _
    · intro n hn
      exact State.value_declare_of_ne hn
  -- the text fits with its zero, and the cut takes all of it
  · rw [if_neg hlong] at hcompare
    refine ⟨s, Stmt.exec_branch_of_not_holds hcompare rfl, rfl, ?_, fun _ _ => rfl⟩
    rw [List.take_of_length_le (by omega)]
    exact State.value_eq_ok hlen

/-- Moving the bytes, putting the zero behind them and giving the target back. -/
theorem execAll_move (hdst : s.value (.inner "dst") = .ok (.pointer dst))
    (hsrc : s.value (.inner "src") = .ok (.pointer src)) (hlen : s.value (.inner "len") = .ok (.size n))
    (htext : s.memory.text src = .ok bytes) (hn : n ≤ bytes.length) (hfits : s.memory.Fits dst (n + 1)) :
    Stmt.execAll (routines depth)
        [.expr (.call (.library .memmove) [.inner "dst", .inner "src", .inner "len"]),
         .store (.inner "dst") (.inner "len") .nul, .ret (.inner "dst")] s =
      .ok (some (.pointer dst), { s with memory := s.memory.put dst (terminated (bytes.take n)) }) := by
  have hlength : (bytes.take n).length = n := by rw [List.length_take, Nat.min_eq_left hn]
  have hargs : Expr.evalAll (routines depth) [.inner "dst", .inner "src", .inner "len"] s =
      .ok ([.pointer dst, .pointer src, .size n], s) :=
    Expr.evalAll_cons (Expr.eval_name hdst) (Expr.evalAll_cons (Expr.eval_name hsrc)
      (Expr.evalAll_cons (Expr.eval_name hlen) (Expr.evalAll_nil _ s)))
  have hmove := Memory.library_memmove htext hn (hfits.mono (Nat.le_add_right n 1))
  rw [← routines_library depth] at hmove
  have hzero := Memory.write_zero (l := bytes.take n) (hlength.symm ▸ hfits)
  rw [hlength] at hzero
  refine Stmt.execAll_cons (Stmt.exec_expr (Expr.eval_call hargs hmove)) ?_
  refine Stmt.execAll_cons (Stmt.exec_store hdst (Expr.eval_name hlen) rfl hzero) ?_
  exact Stmt.execAll_ret (Expr.eval_name hdst)

/-- **Copying a text.** As much of it as the capacity has room for is at the target, with a zero behind it. -/
theorem routines_textCopy (hsrc : m.text src = .ok bytes) (hpos : 0 < cap)
    (hdst : m.Fits dst ((bytes.take (cap - 1)).length + 1)) :
    routines (depth + 1) (.helper .textCopy) [.pointer dst, .pointer src, .size cap] m =
      .ok (.pointer dst, m.put dst (terminated (bytes.take (cap - 1)))) := by
  let start := Helper.textCopyFunction.entry [.pointer dst, .pointer src, .size cap] m
  have hlength : (Expr.call (.library .strlen) [.inner "src"]).eval (routines depth) start =
      .ok (.size bytes.length, start) := eval_strlen (Expr.eval_name rfl) hsrc
  let counted := start.declare (.inner "len") (.scalar (some (.size bytes.length)))
  -- behind the branch only the length is known to differ from the state in front of it
  obtain ⟨s, hshorten, hmemory, hlen, hothers⟩ := @exec_shorten bytes cap counted (routines depth)
    (State.names_declare start _ _) rfl hpos
  have hmove := @execAll_move dst src bytes (bytes.take (cap - 1)).length depth s ((hothers _ (by decide)).trans rfl)
    ((hothers _ (by decide)).trans rfl) hlen (hmemory ▸ hsrc) (List.length_take_le' _ _) (hmemory ▸ hdst)
  have hrun := Function.run_eq_ok (f := Helper.textCopyFunction)
    (Stmt.execAll_cons (Stmt.exec_declare hlength) (Stmt.execAll_cons hshorten hmove))
  rw [hmemory, List.length_take, ← List.take_eq_take_min] at hrun
  exact hrun

/-- A call of the copying routine, whatever its arguments are. -/
theorem eval_textCopy (h₁ : e₁.eval (routines (depth + 1)) s = .ok (.pointer dst, s₁))
    (h₂ : e₂.eval (routines (depth + 1)) s₁ = .ok (.pointer src, s₂))
    (h₃ : e₃.eval (routines (depth + 1)) s₂ = .ok (.size cap, s₃)) (hsrc : s₃.memory.text src = .ok bytes)
    (hpos : 0 < cap) (hdst : s₃.memory.Fits dst ((bytes.take (cap - 1)).length + 1)) :
    (Expr.call (.helper .textCopy) [e₁, e₂, e₃]).eval (routines (depth + 1)) s =
      .ok (.pointer dst, { s₃ with memory := s₃.memory.put dst (terminated (bytes.take (cap - 1))) }) :=
  Expr.eval_call (Expr.evalAll_cons h₁ (Expr.evalAll_cons h₂ (Expr.evalAll_cons h₃ (Expr.evalAll_nil _ s₃))))
    (routines_textCopy hsrc hpos hdst)

/-- A call that appends to a text in another buffer, whatever its arguments are. -/
theorem eval_strncat (h₁ : e₁.eval (routines depth) s = .ok (.pointer dst, s₁))
    (h₂ : e₂.eval (routines depth) s₁ = .ok (.pointer src, s₂)) (h₃ : e₃.eval (routines depth) s₂ = .ok (.size n, s₃))
    (hdst : s₃.memory.text dst = .ok l) (hsrc : s₃.memory.text src = .ok r) (hne : dst.block ≠ src.block)
    (hfits : s₃.memory.Fits dst ((l ++ r.take n).length + 1)) :
    (Expr.call (.library .strncat) [e₁, e₂, e₃]).eval (routines depth) s =
      .ok (.pointer dst, { s₃ with memory := s₃.memory.put dst (terminated (l ++ r.take n)) }) :=
  Expr.eval_call (Expr.evalAll_cons h₁ (Expr.evalAll_cons h₂ (Expr.evalAll_cons h₃ (Expr.evalAll_nil _ s₃))))
    ((routines_library depth .strncat _ _).trans (Memory.library_strncat hdst hsrc hne hfits))

/-- The room behind a text that has been ended within its buffer is no less than nothing. -/
theorem eval_room {x : Name} (hvalue : s.value x = .ok (.pointer buf)) (hcapacity : s.capacity x = .ok cap)
    (htext : s.memory.text buf = .ok bytes) (h : bytes.length < cap) :
    (Expr.room x).eval (routines depth) s = .ok (.size (cap - bytes.length - 1), s) := by
  have hlength := (routines_library depth .strlen [.pointer buf] s.memory).trans (Memory.library_strlen htext)
  have hbehind := s.memory.operate_sub (Nat.le_of_lt h)
  have hbesideZero := s.memory.operate_sub (Nat.sub_pos_of_lt h)
  exact bind_eq_ok_iff.2 ⟨_, hcapacity, bind_eq_ok_iff.2 ⟨_, hvalue, bind_eq_ok_iff.2 ⟨_, hlength,
    bind_eq_ok_iff.2 ⟨_, hbehind, bind_eq_ok_iff.2 ⟨_, hbesideZero, rfl⟩⟩⟩⟩⟩

/-- The copies of both texts, the second in what the first leaves of the buffer. -/
theorem execAll_concat {old : Option Value} (hbuf : s.value (.inner "buf") = .ok (.pointer buf))
    (hcap : s.value (.inner "cap") = .ok (.size cap)) (hleft : s.value (.inner "left") = .ok (.pointer left))
    (hright : s.value (.inner "right") = .ok (.pointer right)) (hused : s.names (.inner "used") = some (.scalar old))
    (hl : s.memory.text left = .ok l) (hr : s.memory.text right = .ok r) (hne : buf.block ≠ right.block)
    (hpos : 0 < cap) (hfits : s.memory.Fits buf cap) :
    ∃ s', Stmt.execAll (routines (depth + 1))
        [.expr (.call (.helper .textCopy) [.inner "buf", .inner "left", .inner "cap"]),
         .expr (.assign (.inner "used") (.call (.library .strlen) [.inner "buf"])),
         .expr (.call (.helper .textCopy)
           [.binary .add (.inner "buf") (.inner "used"), .inner "right", .binary .sub (.inner "cap") (.inner "used")]),
         .ret (.inner "buf")] s = .ok (some (.pointer buf), s') ∧
      s'.memory = s.memory.put buf (terminated ((l ++ r).take (cap - 1))) := by
  obtain ⟨cut, hcut⟩ : ∃ cut, cut = l.take (cap - 1) := ⟨_, rfl⟩
  have hlt : cut.length < cap := hcut ▸ length_take_lt _ hpos
  have hcutFits : s.memory.Fits buf (cut.length + 1) := hfits.mono hlt
  have htext : (s.memory.put buf (terminated cut)).text buf = .ok cut :=
    hcut ▸ Memory.text_put_cut hfits hpos (Memory.cells_of_text hl).1
  -- the first text, and the bytes it takes
  let s₁ : State := { s with memory := s.memory.put buf (terminated cut) }
  have hcopy : (Expr.call (.helper .textCopy) [.inner "buf", .inner "left", .inner "cap"]).eval
      (routines (depth + 1)) s = .ok (.pointer buf, s₁) := by
    subst hcut
    exact eval_textCopy (Expr.eval_name hbuf) (Expr.eval_name hleft) (Expr.eval_name hcap) hl hpos hcutFits
  have hlength : (Expr.call (.library .strlen) [.inner "buf"]).eval (routines (depth + 1)) s₁ =
      .ok (.size cut.length, s₁) := eval_strlen (Expr.eval_name hbuf) htext
  have hassign := Expr.eval_assign hlength (State.assign_eq_declare hused)
  -- the second text in what is left of the buffer
  let s₂ := s₁.declare (.inner "used") (.scalar (some (.size cut.length)))
  have hused₂ : s₂.value (.inner "used") = .ok (.size cut.length) := s₁.value_declare _ _
  have hkept : ∀ n, n ≠ .inner "used" → s₂.value n = s.value n := fun n hn => State.value_declare_of_ne hn
  have hrest : s₂.memory.Fits (buf.advance cut.length) (cap - cut.length) := by
    have hwritten : s.memory.Fits buf (terminated cut).length := (length_terminated cut).symm ▸ hcutFits
    exact (hfits.put hwritten).advance (Nat.le_of_lt hlt)
  have hplace : (Expr.binary .add (.inner "buf") (.inner "used")).eval (routines (depth + 1)) s₂ =
      .ok (.pointer (buf.advance cut.length), s₂) := by
    obtain ⟨cells, hcells, -⟩ := hrest.cells
    refine Expr.eval_binary (Expr.eval_name ((hkept _ (by decide)).trans hbuf)) (Expr.eval_name hused₂) ?_
    rw [Memory.operate, hcells]
    rfl
  have hroom : (Expr.binary .sub (.inner "cap") (.inner "used")).eval (routines (depth + 1)) s₂ =
      .ok (.size (cap - cut.length), s₂) :=
    Expr.eval_binary (Expr.eval_name ((hkept _ (by decide)).trans hcap)) (Expr.eval_name hused₂)
      (s₂.memory.operate_sub (Nat.le_of_lt hlt))
  have hsecond := eval_textCopy hplace (Expr.eval_name ((hkept _ (by decide)).trans hright)) hroom
    ((Memory.text_put_of_ne hne).trans hr) (by omega) (hrest.mono (by rw [List.length_take]; omega))
  refine ⟨_, Stmt.execAll_cons (Stmt.exec_expr hcopy) (Stmt.execAll_cons (Stmt.exec_expr hassign)
    (Stmt.execAll_cons (Stmt.exec_expr hsecond) (Stmt.execAll_ret (Expr.eval_name ?_)))), ?_⟩
  · exact (hkept _ (by decide)).trans hbuf
  · subst hcut
    exact Memory.put_cut_append hfits hpos

/-- **Putting two texts together.** As much of both in sequence as the capacity has room for is in the buffer, with a
zero behind it. The second text must not be in the buffer; the first may be. -/
theorem routines_textConcat (depth : Nat) (hl : m.text left = .ok l) (hr : m.text right = .ok r)
    (hne : buf.block ≠ right.block) (hpos : 0 < cap) (hbuf : m.Fits buf cap) :
    routines (depth + 2) (.helper .textConcat) [.pointer buf, .size cap, .pointer left, .pointer right] m =
      .ok (.pointer buf, m.put buf (terminated ((l ++ r).take (cap - 1)))) := by
  let start := Helper.textConcatFunction.entry [.pointer buf, .size cap, .pointer left, .pointer right] m
  obtain ⟨s, hbody, hmemory⟩ := @execAll_concat buf left right l r cap depth
    (start.declare (.inner "used") (.scalar none)) none rfl rfl rfl rfl (start.names_declare _ _) hl hr hne hpos hbuf
  have hdeclare : (Stmt.declare .size (.inner "used") none).exec (routines (depth + 1)) start =
      .ok (none, start.declare (.inner "used") (.scalar none)) := rfl
  have hrun := Function.run_eq_ok (f := Helper.textConcatFunction) (Stmt.execAll_cons hdeclare hbody)
  rwa [hmemory] at hrun

end Routines

end ImpC.C
