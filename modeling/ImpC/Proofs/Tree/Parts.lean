import ImpC.Tree.Basic

/-!
# The trees inside a tree

`Construct.parts` lists the immediate parts of a construct from left to right. Everything that is said about a tree
*at every depth* goes through it:

* `Node.Within m n` — the tree `m` stands in `n`, which is `n` itself or a tree in one of its parts;
* `Node.Everywhere P n` — every tree in `n` has the property `P`;
* `Node.induction` — what holds of a tree as soon as it holds of its parts holds of every tree.

A property of the whole tree is taken apart by `Node.everywhere_iff`: it is the property of the node at the top
together with the same property of each part.
-/

namespace ImpC

/-- The immediate parts of a construct, from left to right. -/
def Construct.parts {α : Type} : Construct α → List α
  | int _ | float _ | text _ | var _ | read _ | declare _ => []
  | binary _ l r => [l, r]
  | assign _ v | print v | ret v => [v]
  | call _ ns | block ns => ns
  | branch c a b => c :: a :: b.toList
  | loop c b => [c, b]
  | count i c u b => [i, c, u, b]
  | function _ ps b r => ps ++ [b, r]

namespace Node

/-- **Induction over trees.** A property that a tree has as soon as all its parts have it is one of every tree. -/
theorem induction {P : Node → Prop}
    (mk : ∀ (c : Construct Node) (ty : Option Ty), (∀ m ∈ c.parts, P m) → P ⟨c, ty⟩) (n : Node) : P n := by
  -- lists and options of parts are part of the recursion, and have the property of all their members
  refine @Node.rec P (fun c => ∀ m ∈ c.parts, P m) (fun ns => ∀ m ∈ ns, P m) (fun o => ∀ m ∈ o.toList, P m)
    mk ?_ ?_ ?_ ?_ ?_ ?_ ?_ ?_ ?_ ?_ ?_ ?_ ?_ ?_ ?_ ?_ ?_ ?_ ?_ ?_ n
  all_goals
    simp only [Construct.parts, List.forall_mem_cons, List.forall_mem_append, List.not_mem_nil,
      Option.toList_none, Option.toList_some, false_implies, implies_true, and_true]
  all_goals grind

/-- The tree `m` stands in the tree `n`. -/
inductive Within : Node → Node → Prop where
  /-- A tree stands in itself. -/
  | refl (n : Node) : Within n n
  /-- What stands in a part stands in the whole. -/
  | part {k m : Node} {c : Construct Node} {ty : Option Ty} (hm : m ∈ c.parts) (hk : Within k m) : Within k ⟨c, ty⟩

theorem Within.trans {k m n : Node} (hk : k.Within m) (hm : m.Within n) : k.Within n := by
  induction hm with
  | refl => exact hk
  | part hparts _ ih => exact .part hparts ih

/-- Every tree in `n` has the property `P`. -/
def Everywhere (P : Node → Prop) (n : Node) : Prop := ∀ m, m.Within n → P m

variable {P Q : Node → Prop} {c : Construct Node} {ty : Option Ty}

/-- A property holds at every depth if it holds at the top and at every depth of each part. -/
theorem everywhere_iff : Everywhere P ⟨c, ty⟩ ↔ P ⟨c, ty⟩ ∧ ∀ m ∈ c.parts, m.Everywhere P := by
  constructor
  · intro h
    exact ⟨h _ (.refl _), fun m hm k hk => h k (.part hm hk)⟩
  · rintro ⟨htop, hparts⟩ m hm
    cases hm with
    | refl => exact htop
    | part hm hk => exact hparts _ hm _ hk

theorem Everywhere.top {n : Node} (h : n.Everywhere P) : P n := h n (.refl n)

theorem Everywhere.part (h : Everywhere P ⟨c, ty⟩) {m : Node} (hm : m ∈ c.parts) : m.Everywhere P :=
  fun _ hk => h _ (.part hm hk)

/-- What stands in a tree has at every depth what the tree has there. -/
theorem Everywhere.within {m n : Node} (h : n.Everywhere P) (hm : m.Within n) : m.Everywhere P :=
  fun _ hk => h _ (hk.trans hm)

theorem Everywhere.imp {n : Node} (h : n.Everywhere P) (hPQ : ∀ m, P m → Q m) : n.Everywhere Q :=
  fun m hm => hPQ m (h m hm)

end Node

end ImpC
