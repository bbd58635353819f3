import ImpC.Proofs.C.Demand
import ImpC.Proofs.C.Types
import ImpC.Proofs.Emit.CallGraph
import ImpC.Proofs.Emit.Relation
import ImpC.Proofs.Env.History
import Mathlib.Data.List.Nodup

/-!
# Names at file scope

Everything that a program defines stands in one scope: the routines it brings along, the variables, the functions and `main`.
The names of variables and functions are chosen by whoever builds the program, and nothing is forbidden: a variable may be
called `main`, and a function `rt_text_copy` or `f_g`. `C.Program.fileScopeNames` lists the names that a program defines, in
the order of the text.

Two things keep them apart. No name stands twice in its own part of the list, because a variable that is known is not added
to its table and of the functions of one name one is emitted (`Registry.nodup_firstsAfter`). And the spelling tells where a
name comes from: each kind of name has a first letter of its own (`C.Name.head?_toText`), so that different names at file
scope are spelled differently, whatever is behind the letter (`C.Name.toText_inj`).
-/

namespace ImpC

namespace C

/-! ### Spellings -/

theorem Helper.name_injective {h k : Helper} (hk : h.name = k.name) : h = k := by
  cases h <;> cases k <;> first | rfl | exact absurd hk (by decide)

namespace Name

/-- The letter that the spelling of a name at file scope starts with, and `none` for names that are not at file scope. -/
def letter? : Name → Option Char
  | var _ => some 'v'
  | function _ => some 'f'
  | helper _ => some 'r'
  | main => some 'm'
  | argument _ | library _ | result | scratch | inner _ => none

variable {m n : Name} {c : Char}

/-- **The first letter tells what a name is.** -/
theorem head?_toText (h : n.letter? = some c) : n.toText.toList.head? = some c := by
  cases n with
  | var x | function f =>
    cases h
    rw [toText, String.toList_append]
    rfl
  | helper k =>
    cases h
    cases k <;> rfl
  | main =>
    cases h
    rfl
  | argument | library | result | scratch | inner => cases h

/-- **Different names at file scope are spelled differently.** -/
theorem toText_inj (hm : m.letter?.isSome) (hn : n.letter?.isSome) (h : m.toText = n.toText) : m = n := by
  obtain ⟨c, hc⟩ := Option.isSome_iff_exists.1 hm
  obtain ⟨d, hd⟩ := Option.isSome_iff_exists.1 hn
  -- equal spellings have one first letter, so the names are of one kind
  have hkind : m.letter? = n.letter? := by
    rw [hc, hd, ← head?_toText hc, ← head?_toText hd, h]
  clear hc hd
  cases m with
  | var x =>
    cases n with
    | var y => exact congrArg var ((String.append_right_inj _).1 h)
    | function | helper | main => simp [letter?] at hkind
    | argument | library | result | scratch | inner => cases hn
  | function f =>
    cases n with
    | function g => exact congrArg function ((String.append_right_inj _).1 h)
    | var | helper | main => simp [letter?] at hkind
    | argument | library | result | scratch | inner => cases hn
  | helper k =>
    cases n with
    | helper k' => exact congrArg helper (Helper.name_injective h)
    | var | function | main => simp [letter?] at hkind
    | argument | library | result | scratch | inner => cases hn
  | main =>
    cases n with
    | main => rfl
    | var | function | helper => simp [letter?] at hkind
    | argument | library | result | scratch | inner => cases hn
  | argument | library | result | scratch | inner => cases hm

end Name

end C

/-! ### Tables of an environment -/

namespace Env

variable {env : Env} {history : List Declaration}

end Env

/-! ### Programs -/

namespace Emit

variable {o : EmitOptions} {env : Env} {root : Node}

end Emit

end ImpC
