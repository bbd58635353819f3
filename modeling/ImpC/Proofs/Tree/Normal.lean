import ImpC.Proofs.Tree.Parts

/-!
# Normal forms of trees

Several trees mean the same as statements. A counting loop is its first step and a plain loop whose body ends with the step
after each round; a block inside a block is its statements; declarations and definitions of functions do nothing where they
stand. `Node.normalize` rewrites a tree accordingly, wherever a statement stands in it and at every depth, and leaves alone
what stands where a value is needed. In a place that needs a statement, such as the body of a loop, what does nothing is
the empty block.

`Node.isNormal` says of a tree that nothing is left to rewrite. Normalizing gives such trees (`Node.isNormal_normalize`) and
changes no others (`Node.normalize_eq_self_iff`).
-/

namespace ImpC.Node

/-- Whether the tree is a block. -/
def isBlock : Node → Bool
  | ⟨.block _, _⟩ => true
  | _ => false

/-- The statements that a tree contributes to a block: its own, if it is a block, and else itself. -/
def statements : Node → List Node
  | ⟨.block ns, _⟩ => ns
  | n => [n]

mutual

/-- The normal form of a statement. -/
@[simp] def normalize : Node → Node
  | ⟨.declare _, _⟩ | ⟨.function .., _⟩ => ⟨.block [], none⟩
  | ⟨.block ns, ty⟩ => ⟨.block (normalizeAll ns), ty⟩
  | ⟨.count i c u b, _⟩ =>
    ⟨.block (i.normalize.statements ++
      [⟨.loop c ⟨.block (b.normalize.statements ++ u.normalize.statements), none⟩, none⟩]), none⟩
  | ⟨.branch c a none, ty⟩ => ⟨.branch c a.normalize none, ty⟩
  | ⟨.branch c a (some b), ty⟩ => ⟨.branch c a.normalize (some b.normalize), ty⟩
  | ⟨.loop c b, ty⟩ => ⟨.loop c b.normalize, ty⟩
  | ⟨.int v, ty⟩ => ⟨.int v, ty⟩
  | ⟨.float v, ty⟩ => ⟨.float v, ty⟩
  | ⟨.text s, ty⟩ => ⟨.text s, ty⟩
  | ⟨.var x, ty⟩ => ⟨.var x, ty⟩
  | ⟨.binary op l r, ty⟩ => ⟨.binary op l r, ty⟩
  | ⟨.assign x v, ty⟩ => ⟨.assign x v, ty⟩
  | ⟨.call f args, ty⟩ => ⟨.call f args, ty⟩
  | ⟨.print v, ty⟩ => ⟨.print v, ty⟩
  | ⟨.read x, ty⟩ => ⟨.read x, ty⟩
  | ⟨.ret v, ty⟩ => ⟨.ret v, ty⟩

/-- The normal form of statements in sequence, with no block among them. -/
@[simp] def normalizeAll : List Node → List Node
  | [] => []
  | n :: ns => n.normalize.statements ++ normalizeAll ns

end

mutual

/-- No statement in the tree can be rewritten. -/
@[simp] def isNormal : Node → Bool
  | ⟨.declare _, _⟩ | ⟨.function .., _⟩ | ⟨.count .., _⟩ => false
  | ⟨.block ns, _⟩ => areNormal ns
  | ⟨.branch _ a none, _⟩ => a.isNormal
  | ⟨.branch _ a (some b), _⟩ => a.isNormal && b.isNormal
  | ⟨.loop _ b, _⟩ => b.isNormal
  | ⟨.int _, _⟩ | ⟨.float _, _⟩ | ⟨.text _, _⟩ | ⟨.var _, _⟩ | ⟨.binary .., _⟩ | ⟨.assign .., _⟩ | ⟨.call .., _⟩
  | ⟨.print _, _⟩ | ⟨.read _, _⟩ | ⟨.ret _, _⟩ => true

/-- No statement of the sequence can be rewritten, and none is a block. -/
@[simp] def areNormal : List Node → Bool
  | [] => true
  | n :: ns => !n.isBlock && n.isNormal && areNormal ns

end

variable {n : Node} {ns ms : List Node}

theorem statements_of_not_isBlock (h : n.isBlock = false) : n.statements = [n] := by
  unfold statements
  split
  · cases h
  · rfl

theorem areNormal_append : areNormal (ns ++ ms) = (areNormal ns && areNormal ms) := by
  induction ns with
  | nil => rfl
  | cons n ns ih => rw [List.cons_append, areNormal, areNormal, ih, ← Bool.and_assoc]

/-- The statements of a normal form can stand in a block. -/
theorem areNormal_statements (h : n.isNormal = true) : areNormal n.statements = true := by
  cases hblock : n.isBlock with
  | false => rw [statements_of_not_isBlock hblock, areNormal, areNormal, hblock, h]; rfl
  | true =>
    unfold isBlock at hblock
    split at hblock
    · exact h
    · cases hblock

theorem areNormal_normalizeAll (h : ∀ n ∈ ns, n.normalize.isNormal = true) : areNormal (normalizeAll ns) = true := by
  induction ns with
  | nil => rfl
  | cons n ns ih =>
    obtain ⟨hn, hns⟩ := List.forall_mem_cons.1 h
    rw [normalizeAll, areNormal_append, areNormal_statements hn, ih hns]
    rfl

/-- **Nothing is left to rewrite.** -/
theorem isNormal_normalize (n : Node) : n.normalize.isNormal = true := by
  induction n using Node.induction with
  | mk c ty ih =>
    cases c with
    | int | float | text | var | binary | assign | call | print | read | ret => rfl
    | declare | function => rfl
    | block ns => exact areNormal_normalizeAll ih
    | branch c a b =>
      have ha := ih a (by simp [Construct.parts])
      cases b with
      | none => exact ha
      | some b => exact Bool.and_eq_true_iff.2 ⟨ha, ih b (by simp [Construct.parts])⟩
    | loop c b => exact ih b (by simp [Construct.parts])
    | count i c u b =>
      have hi := areNormal_statements (ih i (by simp [Construct.parts]))
      have hu := areNormal_statements (ih u (by simp [Construct.parts]))
      have hb := areNormal_statements (ih b (by simp [Construct.parts]))
      -- the body of the new loop holds what was the body, and then the step after each round
      have hbody : areNormal (b.normalize.statements ++ u.normalize.statements) = true := by
        rw [areNormal_append, hb, hu]
        rfl
      rw [normalize, isNormal, areNormal_append, hi, areNormal, areNormal, isNormal, isNormal, hbody]
      rfl

theorem normalizeAll_eq_self (hns : ∀ n ∈ ns, n.isNormal = true → n.normalize = n) (h : areNormal ns = true) :
    normalizeAll ns = ns := by
  induction ns with
  | nil => rfl
  | cons n ns ih =>
    obtain ⟨hself, hns⟩ := List.forall_mem_cons.1 hns
    rw [areNormal, Bool.and_eq_true, Bool.and_eq_true, Bool.not_eq_true'] at h
    obtain ⟨⟨hblock, hnormal⟩, hrest⟩ := h
    rw [normalizeAll, hself hnormal, statements_of_not_isBlock hblock, ih hns hrest]
    rfl

theorem normalize_eq_self (h : n.isNormal = true) : n.normalize = n := by
  induction n using Node.induction with
  | mk c ty ih =>
    cases c with
    | int | float | text | var | binary | assign | call | print | read | ret => rfl
    | declare | function | count => cases h
    | block ns =>
      have hns : normalizeAll ns = ns := normalizeAll_eq_self ih h
      rw [normalize, hns]
    | branch c a b =>
      cases b with
      | none => rw [normalize, ih a (by simp [Construct.parts]) h]
      | some b =>
        obtain ⟨ha, hb⟩ := Bool.and_eq_true_iff.1 h
        rw [normalize, ih a (by simp [Construct.parts]) ha, ih b (by simp [Construct.parts]) hb]
    | loop c b => rw [normalize, ih b (by simp [Construct.parts]) h]

/-- **Exactly the normal forms stay as they are.** -/
theorem normalize_eq_self_iff : n.normalize = n ↔ n.isNormal = true := by
  constructor
  · intro h
    rw [← h]
    exact isNormal_normalize n
  · exact normalize_eq_self

-- a counting loop as the body of a loop, with a declaration and a block in its own body
example (c : Construct Node) :
    normalize ⟨.loop ⟨c, none⟩ ⟨.count ⟨.var "i", none⟩ ⟨c, none⟩ ⟨.var "u", none⟩
      ⟨.block [⟨.declare ⟨"x", .int⟩, none⟩, ⟨.block [⟨.read "x", none⟩], none⟩], none⟩, none⟩, none⟩ =
      ⟨.loop ⟨c, none⟩ ⟨.block
        [⟨.var "i", none⟩,
         ⟨.loop ⟨c, none⟩ ⟨.block [⟨.read "x", none⟩, ⟨.var "u", none⟩], none⟩, none⟩], none⟩, none⟩ := rfl

end ImpC.Node
