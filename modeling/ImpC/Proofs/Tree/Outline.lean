import ImpC.Proofs.Tree.Heading
import ImpC.Proofs.Tree.Parts
import Mathlib.Data.List.Forall2

/-!
# The outline determines the tree

`Node.dump` writes one line for each node, and nothing but the order and the indentation of the lines tells how the nodes
belong together. This is enough. The lines of a tree are its own and those of its parts, one level deeper, so the parts of a
node end where a line is not deeper than the node itself. Read in this way, two trees with one outline have the same shape
and hold the same at each place (`Node.Alike`), up to floats that are written alike.

Main statement: `Node.dump_eq_iff_alike`. It also says what the outline looks like: the nodes are its lines in the order of
their places (`Node.at?`), each place being the way from the root, part by part, and each line is indented by two blanks for
each step of the way.
-/

namespace ImpC

namespace Node

/-! ### Trees that are alike -/

/-- The trees have the same shape, and at each place the same kind, static type and contents. Floats are the same if they are
written alike. -/
inductive Alike : Node → Node → Prop where
  | int (v : Int64) (ty : Option Ty) : Alike ⟨.int v, ty⟩ ⟨.int v, ty⟩
  | float {x y : Binary64} (h : x.toText = y.toText) (ty : Option Ty) : Alike ⟨.float x, ty⟩ ⟨.float y, ty⟩
  | text (s : String) (ty : Option Ty) : Alike ⟨.text s, ty⟩ ⟨.text s, ty⟩
  | var (x : String) (ty : Option Ty) : Alike ⟨.var x, ty⟩ ⟨.var x, ty⟩
  | binary (op : BinOp) (ty : Option Ty) {l r l' r' : Node} (hl : Alike l l') (hr : Alike r r') :
      Alike ⟨.binary op l r, ty⟩ ⟨.binary op l' r', ty⟩
  | assign (x : String) (ty : Option Ty) {v v' : Node} (hv : Alike v v') : Alike ⟨.assign x v, ty⟩ ⟨.assign x v', ty⟩
  | call (f : String) (ty : Option Ty) {ns ns' : List Node} (hns : List.Forall₂ Alike ns ns') :
      Alike ⟨.call f ns, ty⟩ ⟨.call f ns', ty⟩
  | print (ty : Option Ty) {v v' : Node} (hv : Alike v v') : Alike ⟨.print v, ty⟩ ⟨.print v', ty⟩
  | read (x : String) (ty : Option Ty) : Alike ⟨.read x, ty⟩ ⟨.read x, ty⟩
  | declare (v : Variable) (ty : Option Ty) : Alike ⟨.declare v, ty⟩ ⟨.declare v, ty⟩
  | branch (ty : Option Ty) {c a c' a' : Node} (hc : Alike c c') (ha : Alike a a') :
      Alike ⟨.branch c a none, ty⟩ ⟨.branch c' a' none, ty⟩
  | choice (ty : Option Ty) {c a b c' a' b' : Node} (hc : Alike c c') (ha : Alike a a') (hb : Alike b b') :
      Alike ⟨.branch c a (some b), ty⟩ ⟨.branch c' a' (some b'), ty⟩
  | loop (ty : Option Ty) {c b c' b' : Node} (hc : Alike c c') (hb : Alike b b') : Alike ⟨.loop c b, ty⟩ ⟨.loop c' b', ty⟩
  | count (ty : Option Ty) {i c u b i' c' u' b' : Node} (hi : Alike i i') (hc : Alike c c') (hu : Alike u u')
      (hb : Alike b b') : Alike ⟨.count i c u b, ty⟩ ⟨.count i' c' u' b', ty⟩
  | block (ty : Option Ty) {ns ns' : List Node} (hns : List.Forall₂ Alike ns ns') : Alike ⟨.block ns, ty⟩ ⟨.block ns', ty⟩
  | function (f : String) (ty : Option Ty) {ps ps' : List Node} {b r b' r' : Node} (hps : List.Forall₂ Alike ps ps')
      (hb : Alike b b') (hr : Alike r r') : Alike ⟨.function f ps b r, ty⟩ ⟨.function f ps' b' r', ty⟩
  | ret (ty : Option Ty) {v v' : Node} (hv : Alike v v') : Alike ⟨.ret v, ty⟩ ⟨.ret v', ty⟩

/-- What is alike has one heading, and parts that are alike. -/
theorem Alike.heading_and_parts {a b : Node} (h : Alike a b) :
    a.heading = b.heading ∧ List.Forall₂ Alike a.construct.parts b.construct.parts := by
  cases h with
  | int | text | var | read | declare => exact ⟨rfl, .nil⟩
  | float h ty =>
    refine ⟨?_, .nil⟩
    show "Float: " ++ _ ++ typeSuffix ty = "Float: " ++ _ ++ typeSuffix ty
    rw [h]
  | binary op ty hl hr => exact ⟨rfl, .cons hl (.cons hr .nil)⟩
  | assign x ty hv => exact ⟨rfl, .cons hv .nil⟩
  | print ty hv => exact ⟨rfl, .cons hv .nil⟩
  | ret ty hv => exact ⟨rfl, .cons hv .nil⟩
  | call f ty hns => exact ⟨rfl, hns⟩
  | block ty hns => exact ⟨rfl, hns⟩
  | branch ty hc ha => exact ⟨rfl, .cons hc (.cons ha .nil)⟩
  | choice ty hc ha hb => exact ⟨rfl, .cons hc (.cons ha (.cons hb .nil))⟩
  | loop ty hc hb => exact ⟨rfl, .cons hc (.cons hb .nil)⟩
  | count ty hi hc hu hb => exact ⟨rfl, .cons hi (.cons hc (.cons hu (.cons hb .nil)))⟩
  | function f ty hps hb hr => exact ⟨rfl, List.rel_append hps (.cons hb (.cons hr .nil))⟩

/-- The last two of lists that correspond to each other, and those in front of them. -/
theorem forall₂_append_pair {R : Node → Node → Prop} {ps qs : List Node} {b r b' r' : Node}
    (h : List.Forall₂ R (ps ++ [b, r]) (qs ++ [b', r'])) : List.Forall₂ R ps qs ∧ R b b' ∧ R r r' := by
  have hlength : ps.length = qs.length := by simpa using h.length_eq
  have hfront := List.forall₂_take ps.length h
  have hback := List.forall₂_drop ps.length h
  rw [List.take_left, hlength, List.take_left] at hfront
  rw [List.drop_left, hlength, List.drop_left] at hback
  obtain ⟨hb, hr⟩ := List.forall₂_cons.1 hback
  exact ⟨hfront, hb, (List.forall₂_cons.1 hr).1⟩

/-- **A heading and the parts behind it make a node.** The names have no blanks, so what a construct holds can be told from
its type. -/
theorem alike_of_heading {c c' : Construct Node} {ty ty' : Option Ty} (hc : ∀ x ∈ c.names, Unbroken x)
    (hc' : ∀ x ∈ c'.names, Unbroken x) (hheading : heading ⟨c, ty⟩ = heading ⟨c', ty'⟩)
    (hparts : List.Forall₂ Alike c.parts c'.parts) : Alike ⟨c, ty⟩ ⟨c', ty'⟩ := by
  obtain ⟨hkind, hown⟩ := kind_eq_of_heading_eq hheading
  dsimp only [construct_mk, ty_mk] at hkind hown
  have hname : ∀ {d : Construct Node} {x : String}, (∀ y ∈ d.names, Unbroken y) → d.names = [x] → Unbroken x := by
    intro d x hd hx
    exact hd x (hx ▸ List.mem_singleton.2 rfl)
  cases c <;> cases c' <;> cases hkind
  case int.int.refl v w =>
    obtain ⟨htext, rfl⟩ := eq_of_contents_eq (unbroken_toString _) (unbroken_toString _) hown
    obtain rfl := Int64.toInt_inj.1 (toString_int_inj htext)
    exact .int v ty
  case float.float.refl x y =>
    obtain ⟨htext, rfl⟩ := eq_of_contents_eq x.unbroken_toText y.unbroken_toText hown
    exact .float htext ty
  case text.text.refl s t =>
    have hrest : (Text.quoted s).toList ++ (typeSuffix ty).toList = (Text.quoted t).toList ++ (typeSuffix ty').toList := by
      simpa [Construct.own] using hown
    obtain ⟨rfl, hty⟩ := Text.quoted_append_inj hrest
    obtain rfl := typeSuffix_inj hty
    exact .text s ty
  case var.var.refl x y =>
    obtain ⟨rfl, rfl⟩ := eq_of_contents_eq (hname hc rfl) (hname hc' rfl) hown
    exact .var x ty
  case binary.binary.refl op l r op' l' r' =>
    obtain ⟨hop, rfl⟩ := eq_of_contents_eq op.unbroken_symbol op'.unbroken_symbol hown
    obtain rfl : op = op' :=
      Option.some.inj ((BinOp.ofSymbol?_symbol op).symm.trans (BinOp.ofSymbol?_eq_some_iff.2 hop))
    obtain ⟨hl, hparts⟩ := List.forall₂_cons.1 hparts
    exact .binary op ty hl (List.forall₂_cons.1 hparts).1
  case assign.assign.refl x v y w =>
    obtain ⟨rfl, rfl⟩ := eq_of_contents_eq (hname hc rfl) (hname hc' rfl) hown
    exact .assign x ty (List.forall₂_cons.1 hparts).1
  case call.call.refl f ns g ms =>
    obtain ⟨rfl, rfl⟩ := eq_of_contents_eq (hname hc rfl) (hname hc' rfl) hown
    exact .call f ty hparts
  case print.print.refl v w =>
    obtain rfl := typeSuffix_inj hown
    exact .print ty (List.forall₂_cons.1 hparts).1
  case read.read.refl x y =>
    obtain ⟨rfl, rfl⟩ := eq_of_contents_eq (hname hc rfl) (hname hc' rfl) hown
    exact .read x ty
  case declare.declare.refl v w =>
    obtain ⟨rfl, rfl⟩ := eq_of_declaration_eq (hname hc rfl) (hname hc' rfl) hown
    exact .declare v ty
  case branch.branch.refl c a b c' a' b' =>
    obtain rfl := typeSuffix_inj hown
    obtain ⟨hcondition, hparts⟩ := List.forall₂_cons.1 hparts
    obtain ⟨hconsequent, hparts⟩ := List.forall₂_cons.1 hparts
    -- the number of parts tells whether there is an alternative
    cases b with
    | none =>
      cases b' with
      | none => exact .branch ty hcondition hconsequent
      | some b' => cases hparts
    | some b =>
      cases b' with
      | none => cases hparts
      | some b' => exact .choice ty hcondition hconsequent (List.forall₂_cons.1 hparts).1
  case loop.loop.refl c b c' b' =>
    obtain rfl := typeSuffix_inj hown
    obtain ⟨hc, hparts⟩ := List.forall₂_cons.1 hparts
    exact .loop ty hc (List.forall₂_cons.1 hparts).1
  case count.count.refl i c u b i' c' u' b' =>
    obtain rfl := typeSuffix_inj hown
    obtain ⟨hi, hparts⟩ := List.forall₂_cons.1 hparts
    obtain ⟨hc, hparts⟩ := List.forall₂_cons.1 hparts
    obtain ⟨hu, hparts⟩ := List.forall₂_cons.1 hparts
    exact .count ty hi hc hu (List.forall₂_cons.1 hparts).1
  case block.block.refl ns ms =>
    obtain rfl := typeSuffix_inj hown
    exact .block ty hparts
  case function.function.refl f ps b r g qs b' r' =>
    obtain ⟨rfl, rfl⟩ := eq_of_contents_eq (hname hc rfl) (hname hc' rfl) hown
    obtain ⟨hps, hb, hr⟩ := forall₂_append_pair hparts
    exact .function f ty hps hb hr
  case ret.ret.refl v w =>
    obtain rfl := typeSuffix_inj hown
    exact .ret ty (List.forall₂_cons.1 hparts).1

/-! ### Lines -/

/-- The line of a node at the given depth. -/
def line (depth : Nat) (n : Node) : String := .ofList (List.replicate (2 * depth) ' ') ++ n.heading ++ "\n"

theorem outlineAll_eq_flatMap (depth : Nat) (ns : List Node) : outlineAll depth ns = ns.flatMap (outline depth) := by
  induction ns with
  | nil => rfl
  | cons n ns ih => rw [outlineAll, ih, List.flatMap_cons]

/-- **The lines of a tree** are its own and, one level deeper, those of its parts. -/
theorem outline_eq (depth : Nat) (n : Node) :
    n.outline depth = n.line depth :: n.construct.parts.flatMap (outline (depth + 1)) := by
  obtain ⟨c, ty⟩ := n
  have hparts : outlineParts (depth + 1) c = c.parts.flatMap (outline (depth + 1)) := by
    cases c with
    | int | float | text | var | read | declare => rfl
    | call | block => exact outlineAll_eq_flatMap _ _
    | branch c a b => cases b <;> simp [outlineParts, Construct.parts]
    | function f ps b r => simp [outlineParts, Construct.parts, outlineAll_eq_flatMap]
    | binary | assign | print | loop | count | ret => simp [outlineParts, Construct.parts]
  have hline : outlineLine depth c.label ty = line depth ⟨c, ty⟩ := by
    unfold outlineLine line heading
    rw [← String.append_assoc]
    cases ty <;> rfl
  rw [outline, hparts, hline]
  rfl

theorem toList_line (depth : Nat) (n : Node) :
    (n.line depth).toList = List.replicate (2 * depth) ' ' ++ n.heading.toList ++ ['\n'] := by
  rw [line, String.toList_append, String.toList_append, String.toList_ofList]
  rfl

/-- Indentation can be told from what does not begin with a blank. -/
theorem replicate_append_inj {i j : Nat} {c d : Char} {r r' : List Char} (hc : c ≠ ' ') (hd : d ≠ ' ')
    (h : List.replicate i ' ' ++ c :: r = List.replicate j ' ' ++ d :: r') : i = j ∧ c :: r = d :: r' := by
  induction i generalizing j with
  | zero =>
    cases j with
    | zero => exact ⟨rfl, h⟩
    | succ j => exact absurd (List.cons.inj h).1 hc
  | succ i ih =>
    cases j with
    | zero => exact absurd (List.cons.inj h).1.symm hd
    | succ j =>
      obtain ⟨rfl, hrest⟩ := ih (List.cons.inj h).2
      exact ⟨rfl, hrest⟩

/-- **A line tells its depth and its heading.** -/
theorem line_inj {d d' : Nat} {m n : Node} (h : m.line d = n.line d') : d = d' ∧ m.heading = n.heading := by
  obtain ⟨x, r, hm, hx⟩ := m.exists_cons_heading
  obtain ⟨y, r', hn, hy⟩ := n.exists_cons_heading
  have hlist : List.replicate (2 * d) ' ' ++ m.heading.toList = List.replicate (2 * d') ' ' ++ n.heading.toList := by
    have hlines := congrArg String.toList h
    rw [toList_line, toList_line] at hlines
    exact List.append_cancel_right hlines
  rw [hm, hn] at hlist
  obtain ⟨hdepth, hheading⟩ := replicate_append_inj hx hy hlist
  rw [← hm, ← hn] at hheading
  exact ⟨by omega, String.toList_inj.1 hheading⟩

/-! ### Reading an outline -/

/-- Every name in the tree is free of blanks and line feeds. -/
def HasPlainNames (n : Node) : Prop := n.Everywhere fun m => ∀ x ∈ m.construct.names, Unbroken x

/-- The first of the lines, if there is one, stands less deep than `depth`. -/
def Shallower (depth : Nat) (lines : List String) : Prop := ∀ l ∈ lines.head?, ∃ d < depth, ∃ n, l = line d n

theorem shallower_nil (depth : Nat) : Shallower depth [] := nofun

theorem Shallower.succ {depth : Nat} {lines : List String} (h : Shallower depth lines) : Shallower (depth + 1) lines := by
  intro l hl
  obtain ⟨d, hd, n, rfl⟩ := h l hl
  exact ⟨d, by omega, n, rfl⟩

/-- The lines of trees side by side begin at their own depth. -/
theorem shallower_outlines {depth : Nat} {lines : List String} (ns : List Node) (h : Shallower depth lines) :
    Shallower (depth + 1) (ns.flatMap (outline depth) ++ lines) := by
  cases ns with
  | nil => exact h.succ
  | cons n ns =>
    rw [List.flatMap_cons, outline_eq]
    intro l hl
    cases hl
    exact ⟨depth, by omega, n, rfl⟩

/-- What it means that the tree `a` can be read off an outline: whatever follows, up to a line that is not deeper. -/
def Readable (a : Node) : Prop :=
  ∀ (b : Node) (depth : Nat) (r r' : List String), b.HasPlainNames → Shallower (depth + 1) r → Shallower (depth + 1) r' →
    a.outline depth ++ r = b.outline depth ++ r' → Alike a b ∧ r = r'

/-- **Trees side by side.** They end at the first line that is less deep than they are. -/
theorem forall₂_alike_of_outlines {ns ms : List Node} {depth : Nat} {r r' : List String} (hns : ∀ n ∈ ns, Readable n)
    (hms : ∀ m ∈ ms, m.HasPlainNames) (hr : Shallower depth r) (hr' : Shallower depth r')
    (h : ns.flatMap (outline depth) ++ r = ms.flatMap (outline depth) ++ r') : List.Forall₂ Alike ns ms ∧ r = r' := by
  -- a line at this depth is not one of what follows
  have hdepth : ∀ {lines rest : List String} {n : Node}, Shallower depth lines → lines ≠ n.line depth :: rest := by
    rintro lines rest n hlines rfl
    obtain ⟨d, hd, m, hline⟩ := hlines _ rfl
    obtain ⟨rfl, -⟩ := line_inj hline
    exact Nat.lt_irrefl _ hd
  induction ns generalizing ms with
  | nil =>
    cases ms with
    | nil => exact ⟨.nil, h⟩
    | cons m ms =>
      rw [List.flatMap_cons, outline_eq depth m] at h
      exact absurd h (hdepth hr)
  | cons n ns ih =>
    cases ms with
    | nil =>
      rw [List.flatMap_cons, outline_eq depth n] at h
      exact absurd h.symm (hdepth hr')
    | cons m ms =>
      obtain ⟨hn, hns⟩ := List.forall_mem_cons.1 hns
      obtain ⟨hm, hms⟩ := List.forall_mem_cons.1 hms
      rw [List.flatMap_cons, List.flatMap_cons, List.append_assoc, List.append_assoc] at h
      obtain ⟨halike, hrest⟩ := hn m depth _ _ hm (shallower_outlines ns hr) (shallower_outlines ms hr') h
      obtain ⟨hall, rfl⟩ := ih hns hms hrest
      exact ⟨.cons halike hall, rfl⟩

/-- **Every tree can be read off an outline.** -/
theorem HasPlainNames.readable {a : Node} (ha : a.HasPlainNames) : Readable a := by
  induction a using Node.induction with
  | mk c ty ih =>
    rintro ⟨c', ty'⟩ depth r r' hb hr hr' h
    rw [outline_eq, outline_eq, List.cons_append, List.cons_append] at h
    obtain ⟨hline, hrest⟩ := List.cons.inj h
    obtain ⟨hparts, rfl⟩ :=
      forall₂_alike_of_outlines (fun m hm => ih m hm (ha.part hm)) (fun m hm => hb.part hm) hr hr' hrest
    exact ⟨alike_of_heading ha.top hb.top (line_inj hline).2 hparts, rfl⟩

/-- Trees that are alike have one outline. -/
theorem Alike.outline_eq {a b : Node} (h : Alike a b) (depth : Nat) : a.outline depth = b.outline depth := by
  induction a using Node.induction generalizing b depth with
  | mk c ty ih =>
    obtain ⟨hheading, hparts⟩ := h.heading_and_parts
    have houtlines : c.parts.flatMap (outline (depth + 1)) = b.construct.parts.flatMap (outline (depth + 1)) := by
      dsimp only [construct_mk] at hparts
      generalize c.parts = ns at ih hparts
      generalize b.construct.parts = ms at hparts
      induction hparts with
      | nil => rfl
      | cons hm _ ihparts =>
        obtain ⟨ihm, ih⟩ := List.forall_mem_cons.1 ih
        rw [List.flatMap_cons, List.flatMap_cons, ihm hm, ihparts ih]
    rw [Node.outline_eq, Node.outline_eq, line, line, hheading]
    exact congrArg _ houtlines

/-! ### Places in a tree -/

/-- The tree at a place. The place is the way there from the root, which part to take at each step. -/
def at? : List Nat → Node → Option Node
  | [], n => some n
  | i :: path, n => n.construct.parts[i]?.bind (at? path)

theorem within_of_at? {path : List Nat} {m n : Node} (h : n.at? path = some m) : m.Within n := by
  induction path generalizing n with
  | nil =>
    cases h
    exact .refl m
  | cons i path ih =>
    obtain ⟨c, ty⟩ := n
    obtain ⟨k, hk, hm⟩ := Option.bind_eq_some_iff.1 h
    exact .part (List.mem_of_getElem? hk) (ih hm)

/-- The nodes of a tree with their places: each place once, in the order in which the lines of an outline follow each other.
The places are ordered like words, so a node comes before its parts, and a part with all that is in it before the next. -/
structure Listing (n : Node) (entries : List (List Nat × Node)) : Prop where
  complete : ∀ path m, (path, m) ∈ entries ↔ n.at? path = some m
  ordered : (entries.map Prod.fst).Pairwise (· < ·)

/-- The outline is a listing of the nodes, each at the depth of its place. -/
def IsListed (n : Node) : Prop :=
  ∃ entries, Listing n entries ∧ ∀ depth, n.outline depth = entries.map fun e => e.2.line (depth + e.1.length)

/-- The listings of trees side by side, of which the first is part `k`, one after the other. -/
theorem exists_listing_parts {ns : List Node} (hns : ∀ n ∈ ns, IsListed n) (k : Nat) :
    ∃ entries : List (List Nat × Node),
      (∀ path m, (path, m) ∈ entries ↔ ∃ i rest, path = (k + i) :: rest ∧ ns[i]?.bind (at? rest) = some m) ∧
      (entries.map Prod.fst).Pairwise (· < ·) ∧
      ∀ depth, ns.flatMap (outline (depth + 1)) = entries.map fun e => e.2.line (depth + e.1.length) := by
  induction ns generalizing k with
  | nil => exact ⟨[], by simp, .nil, fun _ => rfl⟩
  | cons n ns ih =>
    obtain ⟨hn, hns⟩ := List.forall_mem_cons.1 hns
    obtain ⟨first, hfirst, hlines⟩ := hn
    obtain ⟨others, hothers, hordered, hlines'⟩ := ih hns (k + 1)
    refine ⟨(first.map fun e => (k :: e.1, e.2)) ++ others, fun path m => ?_, ?_, fun depth => ?_⟩
    · rw [List.mem_append, hothers]
      constructor
      · rintro (hmem | ⟨i, rest, rfl, hm⟩)
        · obtain ⟨e, he, heq⟩ := List.mem_map.1 hmem
          cases heq
          exact ⟨0, e.1, rfl, (hfirst.complete _ _).1 he⟩
        · exact ⟨i + 1, rest, by rw [Nat.add_right_comm, Nat.add_assoc], hm⟩
      · rintro ⟨i, rest, rfl, hm⟩
        cases i with
        | zero => exact .inl (List.mem_map.2 ⟨(rest, m), (hfirst.complete _ _).2 hm, rfl⟩)
        | succ i => exact .inr ⟨i, rest, by rw [Nat.add_right_comm, Nat.add_assoc], hm⟩
    · rw [List.map_append, List.pairwise_append]
      refine ⟨?_, hordered, ?_⟩
      · rw [List.map_map, List.pairwise_map]
        refine (List.pairwise_map.1 hfirst.ordered).imp fun hlt => ?_
        exact List.cons_lt_cons_iff.2 (.inr ⟨rfl, hlt⟩)
      · -- every place in the first tree comes before those in the others
        intro p hp q hq
        obtain ⟨e, he, rfl⟩ := List.mem_map.1 hp
        obtain ⟨e', -, rfl⟩ := List.mem_map.1 he
        obtain ⟨f, hf, rfl⟩ := List.mem_map.1 hq
        obtain ⟨i, rest, hpath, -⟩ := (hothers f.1 f.2).1 hf
        rw [hpath]
        exact List.cons_lt_cons_iff.2 (.inl (by omega))
    · rw [List.flatMap_cons, hlines, hlines', List.map_append, List.map_map]
      refine congrArg (· ++ _) (List.map_congr_left fun e _ => ?_)
      show e.2.line _ = e.2.line (depth + (e.1.length + 1))
      rw [Nat.add_right_comm, Nat.add_assoc]

/-- **One line for each node**, in the order of their places. -/
theorem isListed (n : Node) : IsListed n := by
  induction n using Node.induction with
  | mk c ty ih =>
    obtain ⟨entries, hentries, hordered, hlines⟩ := exists_listing_parts ih 0
    refine ⟨([], ⟨c, ty⟩) :: entries, ⟨fun path m => ?_, ?_⟩, fun depth => ?_⟩
    · rw [List.mem_cons, hentries]
      cases path with
      | nil =>
        simp only [at?, Prod.mk.injEq, true_and, Option.some.injEq]
        constructor
        · rintro (rfl | ⟨i, rest, hpath, -⟩)
          · rfl
          · cases hpath
        · rintro rfl
          exact .inl rfl
      | cons i path =>
        constructor
        · rintro (heq | ⟨j, rest, hpath, hm⟩)
          · cases heq
          · rw [Nat.zero_add] at hpath
            cases hpath
            exact hm
        · intro hm
          exact .inr ⟨i, path, by rw [Nat.zero_add], hm⟩
    · rw [List.map_cons, List.pairwise_cons]
      refine ⟨fun path hpath => ?_, hordered⟩
      obtain ⟨e, he, rfl⟩ := List.mem_map.1 hpath
      obtain ⟨i, rest, hplace, -⟩ := (hentries e.1 e.2).1 he
      rw [hplace]
      exact List.nil_lt_cons _ _
    · rw [outline_eq, List.map_cons]
      exact congrArg _ (hlines depth)

/-! ### The outline of a whole tree -/

/-- The text is one line with its end. -/
def IsLine (s : String) : Prop := ∃ body, s.toList = body ++ ['\n'] ∧ '\n' ∉ body

/-- Lines can be told apart in a text by their ends. -/
theorem lines_eq_of_join_eq {xs ys : List String} (hxs : ∀ x ∈ xs, IsLine x) (hys : ∀ y ∈ ys, IsLine y)
    (h : String.join xs = String.join ys) : xs = ys := by
  have hlist : xs.flatMap String.toList = ys.flatMap String.toList := by
    rw [← String.toList_join, ← String.toList_join, h]
  have hne : ∀ {x : String} (rest : List Char), IsLine x → x.toList ++ rest ≠ [] := by
    rintro x rest ⟨body, hx, -⟩
    rw [hx]
    simp
  clear h
  induction xs generalizing ys with
  | nil =>
    cases ys with
    | nil => rfl
    | cons y ys => exact absurd hlist.symm (hne _ (hys y List.mem_cons_self))
  | cons x xs ih =>
    cases ys with
    | nil => exact absurd hlist (hne _ (hxs x List.mem_cons_self))
    | cons y ys =>
      obtain ⟨⟨body, hx, hbody⟩, htail⟩ := List.forall_mem_cons.1 hxs
      obtain ⟨⟨body', hy, hbody'⟩, htail'⟩ := List.forall_mem_cons.1 hys
      rw [List.flatMap_cons, List.flatMap_cons, hx, hy, List.append_assoc, List.append_assoc] at hlist
      obtain ⟨rfl, hrest⟩ := Text.eq_of_append_cons_eq hbody hbody' hlist
      obtain rfl : x = y := String.toList_inj.1 (hx.trans hy.symm)
      rw [ih htail htail' hrest]

theorem HasPlainNames.newline_notMem {n m : Node} {path : List Nat} (h : n.HasPlainNames) (hm : n.at? path = some m) :
    '\n' ∉ m.heading.toList :=
  newline_notMem_heading (h m (within_of_at? hm))

theorem HasPlainNames.isLine {n : Node} (h : n.HasPlainNames) (depth : Nat) : ∀ l ∈ n.outline depth, IsLine l := by
  intro l hl
  obtain ⟨entries, hlisting, hlines⟩ := n.isListed
  rw [hlines] at hl
  obtain ⟨e, he, rfl⟩ := List.mem_map.1 hl
  refine ⟨_, toList_line _ _, fun hmem => ?_⟩
  obtain hmem | hmem := List.mem_append.1 hmem
  · exact absurd (List.mem_replicate.1 hmem).2 (by decide)
  · exact h.newline_notMem ((hlisting.complete _ _).1 he) hmem

/-- **The outline determines the tree.** Let the names in two trees be free of blanks and line feeds. The trees have one
outline exactly if they are alike. The outline has one line for each node: the lines are those of the nodes in the order of
their places, and each is indented by two blanks for each step from the root. -/
theorem dump_eq_iff_alike {a b : Node} (ha : a.HasPlainNames) (hb : b.HasPlainNames) :
    (a.dump = b.dump ↔ Alike a b) ∧
    ∃ entries : List (List Nat × Node), (∀ path m, (path, m) ∈ entries ↔ a.at? path = some m) ∧
      (entries.map Prod.fst).Pairwise (· < ·) ∧
      a.dump = String.join (entries.map fun e =>
        .ofList (List.replicate (2 * e.1.length) ' ') ++ e.2.heading ++ "\n") ∧
      ∀ e ∈ entries, '\n' ∉ e.2.heading.toList ∧ e.2.heading.toList.head? ≠ some ' ' := by
  refine ⟨⟨fun h => ?_, fun h => ?_⟩, ?_⟩
  · have hlines : a.outline 0 ++ [] = b.outline 0 ++ [] :=
      congrArg (· ++ []) (lines_eq_of_join_eq (ha.isLine 0) (hb.isLine 0) h)
    exact (ha.readable b 0 [] [] hb (shallower_nil 1) (shallower_nil 1) hlines).1
  · exact congrArg String.join (h.outline_eq 0)
  · obtain ⟨entries, hlisting, hlines⟩ := a.isListed
    refine ⟨entries, hlisting.complete, hlisting.ordered, ?_, fun e he => ⟨?_, ?_⟩⟩
    · rw [dump, hlines]
      refine congrArg String.join (List.map_congr_left fun e _ => ?_)
      rw [Nat.zero_add]
      rfl
    · exact ha.newline_notMem ((hlisting.complete _ _).1 he)
    · obtain ⟨c, rest, hheading, hc⟩ := e.2.exists_cons_heading
      rw [hheading]
      exact fun h => hc (Option.some.inj h)

/-- The name of a variable may not have blanks: it could be taken for a name and a type. -/
example : dump ⟨.var "x : int", none⟩ = dump ⟨.var "x", some .int⟩ := by decide

/-- A function with a branch that has no alternative, a text with a quote, a blank and a line feed, and a float. -/
def crooked (bits : UInt64) : Node :=
  ⟨.function "f" [⟨.declare ⟨"x", .int⟩, none⟩]
    ⟨.branch ⟨.text "a\" : int\n", some .text⟩ ⟨.block [], none⟩ none, none⟩
    ⟨.ret ⟨.float ⟨bits⟩, some .float⟩, some .float⟩, none⟩

theorem hasPlainNames_crooked (bits : UInt64) : (crooked bits).HasPlainNames := by
  have hnames : ∀ x ∈ ["f", "x"], Unbroken x := by
    intro x hx
    apply unbroken_literal
    revert x
    decide
  simpa [crooked, HasPlainNames, everywhere_iff, Construct.parts, Construct.names] using hnames

/-- Two ways to be no number are written alike, and the trees with them cannot be told apart. -/
theorem dump_eq_iff_alike_crooked :
    (crooked 0x7FF8000000000000).dump = (crooked 0xFFF0000000000001).dump ∧
      Alike (crooked 0x7FF8000000000000) (crooked 0xFFF0000000000001) := by
  have hdump : (crooked 0x7FF8000000000000).dump = (crooked 0xFFF0000000000001).dump := by decide +kernel
  exact ⟨hdump, (dump_eq_iff_alike (hasPlainNames_crooked _) (hasPlainNames_crooked _)).1.1 hdump⟩

end Node

end ImpC
