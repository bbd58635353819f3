import ImpC.Proofs.C.Code
import ImpC.Proofs.C.Types

/-!
# Buffers in scope

A name may be declared more than once in a program: at file scope, as a parameter, and as a local buffer. `Program.uses`
pairs every expression of a function with the declarations that are in scope where it stands, the innermost first. All
expressions of the function are met in this way (`Program.map_snd_uses`).

`Program.Bounded` is what memory safety asks of an expression that writes: what is written to a buffer is bounded by the size
with which the buffer in scope is declared. The buffer that receives the result of a function is not declared there. It is
one of the callers, and the bound is the size of the buffer that all of them pass.
-/

namespace ImpC.C

/-! ### Scopes -/

/-- The declarations that are in scope, the innermost first: a buffer with its size, and anything else without one. -/
abbrev Scope := List (Name × Option Nat)

/-- The size of the buffer that a name stands for. -/
def Scope.size? (scope : Scope) (n : Name) : Option Nat := (scope.lookup n).join

theorem Scope.size?_cons (scope : Scope) (m n : Name) (capacity? : Option Nat) :
    Scope.size? ((m, capacity?) :: scope) n = if n = m then capacity? else scope.size? n := by
  rw [size?, List.lookup_cons]
  by_cases h : n = m
  · rw [if_pos h, beq_iff_eq.2 h]
    rfl
  · rw [if_neg h, beq_eq_false_iff_ne.2 h]
    rfl

/-- The size of a buffer at file scope. -/
def Global.capacity? : Global → Option Nat
  | long _ | double _ => none
  | buffer _ capacity => some capacity

namespace Stmt

/-- What is in scope behind a statement. -/
def scopeAfter (scope : Scope) : Stmt → Scope
  | buffer n capacity => (n, some capacity) :: scope
  | declare _ n _ => (n, none) :: scope
  | expr _ | ret _ | store .. | branch .. | loop .. | block _ => scope

/-- What is in scope behind statements in sequence. -/
def scopeAfterAll (scope : Scope) (ss : List Stmt) : Scope := ss.foldl scopeAfter scope

mutual

/-- The expressions in a statement, each with what is in scope there. -/
def uses (scope : Scope) : Stmt → List (Scope × Expr)
  | expr e | ret e => e.subs.map (scope, ·)
  | buffer .. | declare _ _ none => []
  -- a declared name is in scope in its first value, too
  | declare _ n (some e) => e.subs.map ((n, none) :: scope, ·)
  | store _ i e => (i.subs ++ e.subs).map (scope, ·)
  | branch c a none => c.subs.map (scope, ·) ++ usesAll scope a
  | branch c a (some b) => c.subs.map (scope, ·) ++ usesAll scope a ++ usesAll scope b
  | loop c b => c.subs.map (scope, ·) ++ usesAll scope b
  | block b => usesAll scope b

/-- The expressions in statements in sequence. -/
def usesAll (scope : Scope) : List Stmt → List (Scope × Expr)
  | [] => []
  | s :: ss => s.uses scope ++ usesAll (s.scopeAfter scope) ss

end

theorem usesAll_append (scope : Scope) (ss ts : List Stmt) :
    usesAll scope (ss ++ ts) = usesAll scope ss ++ usesAll (scopeAfterAll scope ss) ts := by
  induction ss generalizing scope with
  | nil => rfl
  | cons s ss ih =>
    rw [List.cons_append, usesAll, usesAll, ih, List.append_assoc]
    rfl

theorem scopeAfterAll_append (scope : Scope) (ss ts : List Stmt) :
    scopeAfterAll scope (ss ++ ts) = scopeAfterAll (scopeAfterAll scope ss) ts := List.foldl_append

section Pieces

variable {α : Type} {code : α → List Stmt} {pieces : List α} {scope : Scope}

/-- Pieces of code that declare nothing for what follows can be put in sequence, -/
theorem scopeAfterAll_flatMap (h : ∀ q ∈ pieces, scopeAfterAll scope (code q) = scope) :
    scopeAfterAll scope (pieces.flatMap code) = scope := by
  induction pieces with
  | nil => rfl
  | cons q pieces ih =>
    obtain ⟨hq, hpieces⟩ := List.forall_mem_cons.1 h
    rw [List.flatMap_cons, scopeAfterAll_append, hq, ih hpieces]

/-- and all of them stand in the scope of the first. -/
theorem usesAll_flatMap (h : ∀ q ∈ pieces, scopeAfterAll scope (code q) = scope) :
    usesAll scope (pieces.flatMap code) = pieces.flatMap fun q => usesAll scope (code q) := by
  induction pieces with
  | nil => rfl
  | cons q pieces ih =>
    obtain ⟨hq, hpieces⟩ := List.forall_mem_cons.1 h
    rw [List.flatMap_cons, List.flatMap_cons, usesAll_append, hq, ih hpieces]

end Pieces

@[simp] theorem usesAll_singleton (scope : Scope) (s : Stmt) : usesAll scope [s] = s.uses scope := List.append_nil _

theorem map_snd_subs (scope : Scope) (es : List Expr) : (es.map (scope, ·)).map Prod.snd = es := by
  rw [List.map_map]
  exact List.map_id es

mutual

theorem map_snd_uses (scope : Scope) : (s : Stmt) → (s.uses scope).map Prod.snd = s.subs
  | expr e | ret e => map_snd_subs scope e.subs
  | buffer .. | declare _ _ none => rfl
  | declare _ n (some e) => map_snd_subs _ e.subs
  | store _ i e => map_snd_subs scope _
  | branch c a none => by
    rw [uses, subs, List.map_append, map_snd_subs, map_snd_usesAll scope a]
  | branch c a (some b) => by
    rw [uses, subs, List.map_append, List.map_append, map_snd_subs, map_snd_usesAll scope a, map_snd_usesAll scope b]
  | loop c b => by
    rw [uses, subs, List.map_append, map_snd_subs, map_snd_usesAll scope b]
  | block b => map_snd_usesAll scope b

theorem map_snd_usesAll (scope : Scope) : (ss : List Stmt) → (usesAll scope ss).map Prod.snd = subsAll ss
  | [] => rfl
  | s :: ss => by
    rw [usesAll, subsAll, List.map_append, map_snd_uses scope s, map_snd_usesAll _ ss]

end

end Stmt

namespace Program

/-- What is in scope outside of all functions. -/
def fileScope (p : Program) : Scope := p.globals.map fun g => (g.name, g.capacity?)

/-- The expressions in a function of the program, each with what is in scope there. -/
def uses (p : Program) (c : Function) : List (Scope × Expr) :=
  Stmt.usesAll ((c.params.map Param.name).map (·, none) ++ p.fileScope) c.body

/-- **Every expression of a function is met in some scope.** -/
theorem map_snd_uses (p : Program) (c : Function) : (p.uses c).map Prod.snd = c.subs := Stmt.map_snd_usesAll _ c.body

end Program

/-! ### Writes -/

/-- Whether something writes where a pointer that it is called with points to. A function of the program writes to the
buffer for its result only, and does so by a copy. -/
def Name.writes : Name → Bool
  | helper .textCopy | helper .textConcat | library .scanf | library .strncat | library .memmove => true
  | helper _ | library _ | var _ | argument _ | function _ | result | scratch | inner _ | main => false

/-- Whether an expression writes by itself. -/
def Expr.writes : Expr → Bool
  | assign .. => true
  | call f _ => f.writes
  | name _ | long _ | double _ | text _ | size _ | nul | buffer _ | binary .. | first _ | toLong _ | sizeOf _ | room _
  | addressOf _ => false

/-- The number of bytes that a bound stands for. -/
def Expr.bound? (scope : Scope) : Expr → Option Nat
  | size n => some n
  | sizeOf n => scope.size? n
  | _ => none

namespace Program

/-- The function receives a buffer of the given size for its result with every call. -/
structure PassesBuffer (p : Program) (c : Function) (capacity : Nat) : Prop where
  param : c.params.head? = some ⟨.chars, .result⟩
  calls : ∀ d ∈ p.functions ++ [p.main], ∀ entries, .call c.name entries ∈ d.subs →
    entries.head? = some (.buffer capacity)

/-- **What an expression writes is within the buffer it is written to.** -/
inductive Bounded (p : Program) (c : Function) (scope : Scope) : Expr → Prop where
  /-- Most expressions write nothing by themselves. -/
  | silent {e : Expr} (h : e.writes = false) : Bounded p c scope e
  /-- A copy to a buffer that is in scope is bounded by the size that it is declared with. -/
  | copy {n : Name} {value bound : Expr} {capacity : Nat} (own : n ≠ .result) (target : scope.size? n = some capacity)
      (bounded : bound.bound? scope = some capacity) :
      Bounded p c scope (.call (.helper .textCopy) [.name n, value, bound])
  /-- The copy of a result is bounded by the size of the buffer that all callers pass. -/
  | result {value bound : Expr} {capacity : Nat} (target : p.PassesBuffer c capacity)
      (bounded : bound.bound? scope = some capacity) :
      Bounded p c scope (.call (.helper .textCopy) [.name .result, value, bound])
  /-- What is put behind a text is bounded by what is free in the buffer in scope. -/
  | behind {n : Name} {value : Expr} {capacity : Nat} (target : scope.size? n = some capacity) :
      Bounded p c scope (.call (.library .strncat) [.name n, value, .room n])
  /-- Two texts are put together in a fresh buffer, and the bound is its size. -/
  | concat (capacity : Nat) (l r : Expr) :
      Bounded p c scope (.call (.helper .textConcat) [.buffer capacity, .size capacity, l, r])
  /-- A text is read up to a width that leaves room for the character that ends it, and for one more. -/
  | scan {n : Name} {capacity : Nat} (target : scope.size? n = some capacity) (width : 1 ≤ capacity - 1) :
      Bounded p c scope (.call (.library .scanf) [.text ("%" ++ toString (capacity - 1) ++ "s"), .name n])
  /-- A number is not read into a buffer, -/
  | scanNumber {n : Name} {format : String} (target : scope.size? n = none) (number : format ∈ ["%lld", "%lf"]) :
      Bounded p c scope (.call (.library .scanf) [.text format, .addressOf n])
  /-- and nothing is assigned to one. -/
  | assign {n : Name} {value : Expr} (target : scope.size? n = none) : Bounded p c scope (.assign n value)

/-- What is written anywhere in an expression is within the buffer it is written to. -/
def BoundedIn (p : Program) (c : Function) (scope : Scope) (e : Expr) : Prop := ∀ e' ∈ e.subs, p.Bounded c scope e'

namespace BoundedIn

variable {p : Program} {c : Function} {scope : Scope} {e l r : Expr}

/-- An expression without parts that writes nothing. -/
theorem leaf (hsubs : e.subs = [e]) (h : e.writes = false) : p.BoundedIn c scope e := by
  rw [BoundedIn, hsubs]
  exact List.forall_mem_singleton.2 (.silent h)

theorem binary (op : BinOp) (hl : p.BoundedIn c scope l) (hr : p.BoundedIn c scope r) :
    p.BoundedIn c scope (.binary op l r) := by
  rw [BoundedIn, Expr.subs]
  exact List.forall_mem_cons.2 ⟨.silent rfl, List.forall_mem_append.2 ⟨hl, hr⟩⟩

theorem first (h : p.BoundedIn c scope e) : p.BoundedIn c scope (.first e) :=
  List.forall_mem_cons.2 ⟨.silent rfl, h⟩

theorem toLong (h : p.BoundedIn c scope e) : p.BoundedIn c scope (.toLong e) :=
  List.forall_mem_cons.2 ⟨.silent rfl, h⟩

theorem assign {n : Name} (target : scope.size? n = none) (h : p.BoundedIn c scope e) :
    p.BoundedIn c scope (.assign n e) :=
  List.forall_mem_cons.2 ⟨.assign target, h⟩

/-- What a call itself writes, and what its arguments do. -/
theorem call {f : Name} {args : List Expr} (h : p.Bounded c scope (.call f args))
    (hargs : ∀ a ∈ args, p.BoundedIn c scope a) : p.BoundedIn c scope (.call f args) := by
  rw [BoundedIn, Expr.subs, Expr.subsAll_eq_flatMap]
  refine List.forall_mem_cons.2 ⟨h, fun e he => ?_⟩
  obtain ⟨a, ha, he⟩ := List.mem_flatMap.1 he
  exact hargs a ha e he

end BoundedIn

end Program

end ImpC.C
