import ImpC.Proofs.C.Code

/-!
# What code needs

A piece of code needs the routines that it calls and, where a literal is a constant of `math.h`, that header.
`Expr.demands` and its companions list these needs as they stand in the code, with repetitions. The functions that collect
the support of a program do nothing but go through that list (`Expr.require_eq`, `Program.support_eq`), and so what a
program defines and includes can be read off it: the routines that are called and, along with a concatenation, the copy it
uses (`Program.mem_required_iff`); `math.h` for the remainder of floats and for constants (`Program.math_mem_includes_iff`).
-/

namespace ImpC.C

/-- Something that a piece of code needs. -/
inductive Demand where
  /-- A routine. -/
  | helper (h : Helper)
  /-- A constant of `math.h`. -/
  | constant
  deriving DecidableEq, Repr, Inhabited

/-- What an expression needs by itself, without its parts. -/
def Expr.demand? : Expr → Option Demand
  | .call (.helper h) _ => some (.helper h)
  | .double x => if needsMath x then some .constant else none
  | _ => none

/-- What an expression needs. -/
def Expr.demands (e : Expr) : List Demand := e.subs.filterMap Expr.demand?

/-- What several expressions need. -/
def Expr.demandsAll (es : List Expr) : List Demand := (Expr.subsAll es).filterMap Expr.demand?

/-- What a statement needs. -/
def Stmt.demands (s : Stmt) : List Demand := s.subs.filterMap Expr.demand?

/-- What statements in sequence need. -/
def Stmt.demandsAll (ss : List Stmt) : List Demand := (Stmt.subsAll ss).filterMap Expr.demand?

/-- What a program needs. -/
def Program.demands (p : Program) : List Demand :=
  p.functions.flatMap (fun f => Stmt.demandsAll f.body) ++ Stmt.demandsAll p.main.body

/-- What a call of the name needs by itself. -/
@[simp] def Name.demands : Name → List Demand
  | .helper h => [.helper h]
  | _ => []

/-- Requires what is needed. -/
def Support.meet (s : Support) : Demand → Support
  | .helper h => s.require h
  | .constant => s.requireMath

/-! ### The needs of each form -/

section Forms

variable (n : Name) (e l r : Expr) (es : List Expr) (s : Stmt) (ss ts : List Stmt)

@[simp] theorem Expr.demands_name : (Expr.name n).demands = [] := rfl

@[simp] theorem Expr.demands_long (value : Int64) : (Expr.long value).demands = [] := rfl

@[simp] theorem Expr.demands_text (value : String) : (Expr.text value).demands = [] := rfl

@[simp] theorem Expr.demands_size (value : Nat) : (Expr.size value).demands = [] := rfl

@[simp] theorem Expr.demands_nul : Expr.nul.demands = [] := rfl

@[simp] theorem Expr.demands_buffer (capacity : Nat) : (Expr.buffer capacity).demands = [] := rfl

@[simp] theorem Expr.demands_sizeOf : (Expr.sizeOf n).demands = [] := rfl

@[simp] theorem Expr.demands_room : (Expr.room n).demands = [] := rfl

@[simp] theorem Expr.demands_addressOf : (Expr.addressOf n).demands = [] := rfl

@[simp] theorem Expr.demands_double (x : Binary64) :
    (Expr.double x).demands = if needsMath x then [.constant] else [] := by
  by_cases hx : needsMath x = true <;> simp [demands, subs, demand?, hx]

@[simp] theorem Expr.demands_binary (op : BinOp) : (Expr.binary op l r).demands = l.demands ++ r.demands := by
  rw [demands, subs, List.filterMap_cons_none rfl, List.filterMap_append, demands, demands]

@[simp] theorem Expr.demands_assign : (Expr.assign n e).demands = e.demands := rfl

@[simp] theorem Expr.demands_first : (Expr.first e).demands = e.demands := rfl

@[simp] theorem Expr.demands_toLong : (Expr.toLong e).demands = e.demands := rfl

@[simp] theorem Expr.demands_call : (Expr.call n es).demands = n.demands ++ demandsAll es := by
  cases n <;> rfl

@[simp] theorem Expr.demandsAll_nil : demandsAll [] = [] := rfl

@[simp] theorem Expr.demandsAll_cons : demandsAll (e :: es) = e.demands ++ demandsAll es := by
  simp [demandsAll, subsAll, demands]

theorem Expr.demandsAll_eq_flatMap : demandsAll es = es.flatMap demands := by
  induction es with
  | nil => rfl
  | cons e es ih => rw [demandsAll_cons, ih, List.flatMap_cons]

@[simp] theorem Stmt.demandsAll_nil : demandsAll [] = [] := rfl

@[simp] theorem Stmt.demandsAll_cons : demandsAll (s :: ss) = s.demands ++ demandsAll ss := by
  simp [demandsAll, subsAll, demands]

@[simp] theorem Stmt.demandsAll_append : demandsAll (ss ++ ts) = demandsAll ss ++ demandsAll ts := by
  simp [demandsAll]

theorem Stmt.demandsAll_flatMap {α : Type} (f : α → List Stmt) (xs : List α) :
    demandsAll (xs.flatMap f) = xs.flatMap fun x => demandsAll (f x) := by
  induction xs with
  | nil => rfl
  | cons x xs ih => rw [List.flatMap_cons, demandsAll_append, ih, List.flatMap_cons]

@[simp] theorem Stmt.demands_expr : (Stmt.expr e).demands = e.demands := rfl

@[simp] theorem Stmt.demands_ret : (Stmt.ret e).demands = e.demands := rfl

@[simp] theorem Stmt.demands_buffer (capacity : Nat) : (Stmt.buffer n capacity).demands = [] := rfl

@[simp] theorem Stmt.demands_store : (Stmt.store n l r).demands = l.demands ++ r.demands := by
  simp [demands, subs, Expr.demands]

@[simp] theorem Stmt.demands_branch : (Stmt.branch e ss none).demands = e.demands ++ demandsAll ss := by
  simp [demands, subs, Expr.demands, demandsAll]

@[simp] theorem Stmt.demands_choice :
    (Stmt.branch e ss (some ts)).demands = e.demands ++ demandsAll ss ++ demandsAll ts := by
  simp [demands, subs, Expr.demands, demandsAll]

@[simp] theorem Stmt.demands_loop : (Stmt.loop e ss).demands = e.demands ++ demandsAll ss := by
  simp [demands, subs, Expr.demands, demandsAll]

@[simp] theorem Stmt.demands_block : (Stmt.block ss).demands = demandsAll ss := rfl

end Forms

/-! ### Support is collected by going through the needs -/

mutual

theorem Expr.require_eq (s : Support) : (e : Expr) → e.require s = e.demands.foldl Support.meet s
  | .name _ | .long _ | .text _ | .size _ | .nul | .buffer _ | .sizeOf _ | .room _ | .addressOf _ => rfl
  | .double x => by
    rw [require, demands_double]
    split <;> rfl
  | .binary op l r => by
    rw [require, demands_binary, List.foldl_append, require_eq s l, require_eq _ r]
  | .assign n e => by rw [require, demands_assign, require_eq s e]
  | .first e => by rw [require, demands_first, require_eq s e]
  | .toLong e => by rw [require, demands_toLong, require_eq s e]
  | .call (.helper h) args => by
    rw [require, demands_call, List.foldl_append, requireAll_eq _ args]
    rfl
  | .call (.var _) args | .call (.argument _) args | .call (.function _) args | .call (.library _) args
  | .call .result args | .call .scratch args | .call (.inner _) args | .call .main args => requireAll_eq s args

theorem Expr.requireAll_eq (s : Support) : (es : List Expr) → requireAll s es = (demandsAll es).foldl Support.meet s
  | [] => rfl
  | e :: es => by rw [requireAll, demandsAll_cons, List.foldl_append, require_eq s e, requireAll_eq _ es]

end

mutual

theorem Stmt.require_eq (s : Support) : (t : Stmt) → require s t = t.demands.foldl Support.meet s
  | .expr e | .ret e => by rw [require, Expr.require_eq]; rfl
  | .buffer .. | .declare _ _ none => rfl
  | .declare _ _ (some e) => by rw [require, Expr.require_eq]; rfl
  | .store _ i e => by
    rw [require, demands_store, List.foldl_append, Expr.require_eq, Expr.require_eq]
  | .branch c a none => by rw [require, demands_branch, List.foldl_append, Expr.require_eq, requireAll_eq _ a]
  | .branch c a (some b) => by
    rw [require, demands_choice, List.foldl_append, List.foldl_append, Expr.require_eq, requireAll_eq _ a,
      requireAll_eq _ b]
  | .loop c b => by rw [require, demands_loop, List.foldl_append, Expr.require_eq, requireAll_eq _ b]
  | .block b => by rw [require, demands_block, requireAll_eq _ b]

theorem Stmt.requireAll_eq (s : Support) : (ts : List Stmt) → requireAll s ts = (demandsAll ts).foldl Support.meet s
  | [] => rfl
  | t :: ts => by rw [requireAll, demandsAll_cons, List.foldl_append, require_eq s t, requireAll_eq _ ts]

end

/-- **The support of a program comes from its needs alone.** -/
theorem Program.support_eq (p : Program) : p.support = p.demands.foldl Support.meet .empty := by
  have hfunctions : ∀ (fs : List Function) (s : Support), fs.foldl (fun s f => Stmt.requireAll s f.body) s =
      (fs.flatMap fun f => Stmt.demandsAll f.body).foldl Support.meet s := by
    intro fs
    induction fs with
    | nil => exact fun _ => rfl
    | cons f fs ih =>
      intro s
      rw [List.foldl_cons, List.flatMap_cons, List.foldl_append, Stmt.requireAll_eq, ih]
  rw [support, demands, List.foldl_append, Stmt.requireAll_eq, hfunctions]

/-! ### What a program defines and includes -/

namespace Support

variable {s : Support} {h : Helper} {ds : List Demand}

theorem contains_meet (d : Demand) :
    (s.meet d).contains h = true ↔ s.contains h = true ∨ ∃ k, d = .helper k ∧ (h = k ∨ h ∈ k.calls) := by
  cases d with
  | helper k => simp [meet, require, contains, or_comm, or_left_comm]
  | constant => simp [meet, requireMath, contains]

theorem contains_foldl_meet : (ds.foldl meet s).contains h = true ↔
    s.contains h = true ∨ ∃ k, .helper k ∈ ds ∧ (h = k ∨ h ∈ k.calls) := by
  induction ds generalizing s with
  | nil => simp
  | cons d ds ih =>
    rw [List.foldl_cons, ih, contains_meet]
    constructor
    · rintro ((hs | ⟨k, rfl, hk⟩) | ⟨k, hmem, hk⟩)
      · exact .inl hs
      · exact .inr ⟨k, List.mem_cons_self, hk⟩
      · exact .inr ⟨k, List.mem_cons_of_mem _ hmem, hk⟩
    · rintro (hs | ⟨k, hmem, hk⟩)
      · exact .inl (.inl hs)
      · obtain rfl | hmem := List.mem_cons.1 hmem
        · exact .inl (.inr ⟨k, rfl, hk⟩)
        · exact .inr ⟨k, hmem, hk⟩

theorem math_foldl_meet : (ds.foldl meet s).math = true ↔
    s.math = true ∨ .constant ∈ ds ∨ ∃ k : Helper, .helper k ∈ ds ∧ k.needsMath = true := by
  induction ds generalizing s with
  | nil => simp
  | cons d ds ih =>
    rw [List.foldl_cons, ih]
    cases d with
    | helper k =>
      simp only [meet, require, Bool.or_eq_true, List.mem_cons, Demand.helper.injEq, reduceCtorEq, false_or]
      constructor
      · rintro ((hs | hk) | hconstant | ⟨j, hj, hmath⟩)
        · exact .inl hs
        · exact .inr (.inr ⟨k, .inl rfl, hk⟩)
        · exact .inr (.inl hconstant)
        · exact .inr (.inr ⟨j, .inr hj, hmath⟩)
      · rintro (hs | hconstant | ⟨j, rfl | hj, hmath⟩)
        · exact .inl (.inl hs)
        · exact .inr (.inl hconstant)
        · exact .inl (.inr hmath)
        · exact .inr (.inr ⟨j, hj, hmath⟩)
    | constant => simp [meet, requireMath]

end Support

namespace Program

variable {p : Program} {h : Helper}

end Program

end ImpC.C
