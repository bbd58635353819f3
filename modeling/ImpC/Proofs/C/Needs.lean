import ImpC.Proofs.C.Demand
import Mathlib.Data.Finset.Dedup
import Mathlib.Data.Finset.Lattice.Lemmas

/-!
# Needs as a set

The demands of a piece of code are a list, in which the same routine stands as often as it is called. What a program
defines and includes does not depend on that: `Needs` keeps which routines are needed, with the routines that those call,
and whether `math.h` is. Parts that are put together need the union of what each of them needs, in whichever order and
however often (`Needs.of_append`), and this is all that the head of a program shows of its code
(`Program.includes_support`, `Program.definitions_support`).
-/

namespace ImpC.C

/-- The routines that code needs, together with those that they call, and whether it needs `math.h`. -/
@[ext] structure Needs where
  helpers : Finset Helper
  math : Bool
  deriving DecidableEq

namespace Needs

instance : EmptyCollection Needs := ⟨⟨∅, false⟩⟩

instance : Union Needs := ⟨fun a b => ⟨a.helpers ∪ b.helpers, a.math || b.math⟩⟩

/-- What is needed to meet a demand. A routine comes with those it calls and with the header it uses. -/
def ofDemand : Demand → Needs
  | .helper h => ⟨(h :: h.calls).toFinset, h.needsMath⟩
  | .constant => ⟨∅, true⟩

/-- What several parts need together. -/
def union (parts : List Needs) : Needs := parts.foldr (· ∪ ·) ∅

/-- What is needed to meet several demands. -/
def of (ds : List Demand) : Needs := union (ds.map ofDemand)

/-- The headers to include. -/
def includes (needs : Needs) : List String :=
  ["stdio.h", "stdlib.h", "string.h"] ++ if needs.math then ["math.h"] else []

/-- The definitions of the routines, in the order of their definitions. -/
def definitions (needs : Needs) : List String := (Helper.all.filter (· ∈ needs.helpers)).map Helper.definition

/-! ### Unions -/

section Union

variable (a b c : Needs)

@[simp] theorem union_empty : a ∪ ∅ = a := Needs.ext (Finset.union_empty _) (Bool.or_false _)

@[simp] theorem empty_union : ∅ ∪ a = a := Needs.ext (Finset.empty_union _) (Bool.false_or _)

@[simp] theorem union_self : a ∪ a = a := Needs.ext (Finset.union_self _) (Bool.or_self _)

theorem union_comm : a ∪ b = b ∪ a := Needs.ext (Finset.union_comm _ _) (Bool.or_comm _ _)

theorem union_assoc : a ∪ b ∪ c = a ∪ (b ∪ c) := Needs.ext (Finset.union_assoc _ _ _) (Bool.or_assoc _ _ _)

end Union

variable {ds es : List Demand}

@[simp] theorem union_cons (a : Needs) (parts : List Needs) : union (a :: parts) = a ∪ union parts := rfl

@[simp] theorem union_append (as bs : List Needs) : union (as ++ bs) = union as ∪ union bs := by
  induction as with
  | nil => exact (empty_union _).symm
  | cons a as ih => rw [List.cons_append, union_cons, ih, union_cons, union_assoc]

@[simp] theorem of_nil : of [] = ∅ := rfl

@[simp] theorem of_cons (d : Demand) (ds : List Demand) : of (d :: ds) = ofDemand d ∪ of ds := rfl

/-- Code that is put together needs what its parts need. -/
@[simp] theorem of_append (ds es : List Demand) : of (ds ++ es) = of ds ∪ of es := by
  rw [of, List.map_append, union_append, of, of]

theorem union_map_of {α : Type} (f : α → List Demand) (xs : List α) :
    union (xs.map fun x => of (f x)) = of (xs.flatMap f) := by
  induction xs with
  | nil => rfl
  | cons x xs ih => rw [List.map_cons, union_cons, ih, List.flatMap_cons, of_append]

/-! ### The head of a program -/

theorem mem_helpers_of {h : Helper} : h ∈ (of ds).helpers ↔ ∃ k, .helper k ∈ ds ∧ (h = k ∨ h ∈ k.calls) := by
  induction ds with
  | nil =>
    refine ⟨fun hmem => absurd hmem (Finset.notMem_empty h), ?_⟩
    rintro ⟨k, hk, -⟩
    exact absurd hk List.not_mem_nil
  | cons d ds ih =>
    rw [of_cons]
    show h ∈ (ofDemand d).helpers ∪ (of ds).helpers ↔ _
    rw [Finset.mem_union, ih]
    cases d with
    | helper k => simp [ofDemand, or_and_right, exists_or]
    | constant => simp [ofDemand]

theorem math_of : (of ds).math = true ↔ .constant ∈ ds ∨ ∃ k : Helper, .helper k ∈ ds ∧ k.needsMath = true := by
  induction ds with
  | nil => simp [of, union]
  | cons d ds ih =>
    rw [of_cons]
    show ((ofDemand d).math || (of ds).math) = true ↔ _
    rw [Bool.or_eq_true, ih]
    cases d with
    | helper k => simp [ofDemand, or_and_right, exists_or, or_left_comm]
    | constant => simp [ofDemand]

end Needs

namespace Program

/-- **The headers of a program** are those for the set of its needs. -/
theorem includes_support (p : Program) : p.support.includes = (Needs.of p.demands).includes := by
  have hmath : p.support.math = (Needs.of p.demands).math := by
    rw [Bool.eq_iff_iff, support_eq, Support.math_foldl_meet, Needs.math_of]
    exact or_iff_right (by decide)
  rw [Support.includes, Needs.includes, hmath]

/-- **The routines of a program** are those for the set of its needs. -/
theorem definitions_support (p : Program) : p.support.definitions = (Needs.of p.demands).definitions := by
  have hcontains : ∀ h ∈ Helper.all, p.support.contains h = decide (h ∈ (Needs.of p.demands).helpers) := by
    intro h _
    rw [Bool.eq_iff_iff, support_eq, Support.contains_foldl_meet, decide_eq_true_iff, Needs.mem_helpers_of]
    exact or_iff_right (by simp [Support.empty, Support.contains])
  rw [Support.definitions, Support.required, Needs.definitions, List.filter_congr hcontains]

end Program

end ImpC.C
