import Std.Data.TreeMap

/-!
# Registries

A registry is a table of entries in the order in which they were added, found by name. A name may be added more than
once, and is then found at its first entry. An index from names to positions answers look-ups; that it always gives the
first position of each name is part of the type (`Registry.index_eq`), so a look-up is the search for the first entry of
that name (`Registry.find?_eq`) and never reads outside the table.

The view of a registry is the list of its entries, `Registry.toList`.
-/

namespace ImpC

/-- A table of entries, each with the name `key` gives it, and the first position of every name. -/
structure Registry (α : Type) (key : α → String) where
  /-- The entries in the order in which they were added. -/
  entries : Array α
  /-- The first position of each name. -/
  index : Std.TreeMap String Nat
  /-- The index gives the first position of each name. -/
  index_eq : ∀ name, index[name]? = entries.findIdx? (key · == name)

namespace Registry

variable {α : Type} {key : α → String}

/-- The registry without entries. -/
def empty : Registry α key where
  entries := #[]
  index := ∅
  index_eq _ := by simp

instance : Inhabited (Registry α key) := ⟨empty⟩

/-- The entries in the order in which they were added. -/
def toList (r : Registry α key) : List α := r.entries.toList

/-- Adds an entry at the end. A name that is known keeps its position. -/
def push (r : Registry α key) (a : α) : Registry α key where
  entries := r.entries.push a
  index := r.index.insertIfNew (key a) r.entries.size
  index_eq name := by
    rw [Std.TreeMap.getElem?_insertIfNew, Array.findIdx?_push, ← r.index_eq name]
    by_cases h : key a = name
    · subst h
      have known : key a ∈ r.index ↔ r.index[key a]?.isSome := Std.TreeMap.mem_iff_isSome_getElem?
      cases hr : r.index[key a]? <;> simp_all
    · simp [h]

/-- The first entry of the given name. -/
def find? (r : Registry α key) (name : String) : Option α :=
  r.index[name]?.bind fun i => r.entries[i]?

/-- Whether the name has an entry. -/
def contains (r : Registry α key) (name : String) : Bool := r.index.contains name

/-- The entries that are first of their name, where the names in `seen` have come before. -/
def firstsAfter (key : α → String) (seen : List String) : List α → List α
  | [] => []
  | a :: rest =>
    if key a ∈ seen then firstsAfter key seen rest
    else a :: firstsAfter key (key a :: seen) rest

/-- The entries that look-ups find: the first of each name, in order. -/
def firsts (r : Registry α key) : List α := firstsAfter key [] r.toList

/-! ### The view -/

@[simp] theorem toList_empty : (empty : Registry α key).toList = [] := rfl

@[simp] theorem toList_push (r : Registry α key) (a : α) : (r.push a).toList = r.toList ++ [a] := by
  simp [toList, push]

/-- **A look-up is a search.** The entry found for a name is the first of that name in the table. -/
theorem find?_eq (r : Registry α key) (name : String) : r.find? name = r.toList.find? (key · == name) := by
  rw [find?, r.index_eq, toList, Array.find?_toList]
  cases h : r.entries.findIdx? (key · == name) with
  | none =>
    rw [Array.findIdx?_eq_none_iff] at h
    exact (Array.find?_eq_none.2 fun a ha => by simp [h a ha]).symm
  | some i =>
    obtain ⟨hi, hp, hlt⟩ := Array.findIdx?_eq_some_iff_getElem.1 h
    rw [Option.bind_some, Array.getElem?_eq_getElem hi]
    symm
    rw [Array.find?_eq_some_iff_getElem]
    exact ⟨hp, i, hi, rfl, fun j hj => by simpa using hlt j hj⟩

/-- A name has an entry exactly when it is found. -/
theorem contains_eq (r : Registry α key) (name : String) : r.contains name = r.toList.any (key · == name) := by
  rw [contains, Std.TreeMap.contains_eq_isSome_getElem?, r.index_eq, Array.findIdx?_isSome, toList, Array.any_toList]

end Registry

end ImpC
