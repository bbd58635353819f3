import ImpC.Tree.Basic

/-!
# Comparison of trees

Two trees are equal if they have the same shape, names, operators, literals and static types. Float literals are
compared as numbers (`Binary64.equal`), so a tree that holds a NaN differs from itself.
-/

namespace ImpC

mutual

/-- Whether two trees are equal. -/
def Node.equal : Node → Node → Bool
  | ⟨.int a, s⟩, ⟨.int b, t⟩ => a == b && s == t
  | ⟨.float a, s⟩, ⟨.float b, t⟩ => a.equal b && s == t
  | ⟨.text a, s⟩, ⟨.text b, t⟩ => a == b && s == t
  | ⟨.var x, s⟩, ⟨.var y, t⟩ => x == y && s == t
  | ⟨.binary op l r, s⟩, ⟨.binary op' l' r', t⟩ => op == op' && l.equal l' && r.equal r' && s == t
  | ⟨.assign x v, s⟩, ⟨.assign y w, t⟩ => x == y && v.equal w && s == t
  | ⟨.call f as, s⟩, ⟨.call g bs, t⟩ => f == g && equalAll as bs && s == t
  | ⟨.print v, s⟩, ⟨.print w, t⟩ => v.equal w && s == t
  | ⟨.read x, s⟩, ⟨.read y, t⟩ => x == y && s == t
  | ⟨.declare x, s⟩, ⟨.declare y, t⟩ => x == y && s == t
  | ⟨.branch c a none, s⟩, ⟨.branch c' a' none, t⟩ => c.equal c' && a.equal a' && s == t
  | ⟨.branch c a (some b), s⟩, ⟨.branch c' a' (some b'), t⟩ =>
    c.equal c' && a.equal a' && b.equal b' && s == t
  | ⟨.loop c b, s⟩, ⟨.loop c' b', t⟩ => c.equal c' && b.equal b' && s == t
  | ⟨.count i c u b, s⟩, ⟨.count i' c' u' b', t⟩ =>
    i.equal i' && c.equal c' && u.equal u' && b.equal b' && s == t
  | ⟨.block as, s⟩, ⟨.block bs, t⟩ => equalAll as bs && s == t
  | ⟨.function f ps b r, s⟩, ⟨.function g ps' b' r', t⟩ =>
    f == g && equalAll ps ps' && b.equal b' && r.equal r' && s == t
  | ⟨.ret v, s⟩, ⟨.ret w, t⟩ => v.equal w && s == t
  | _, _ => false

/-- Whether two lists of trees are equal, position by position. -/
def Node.equalAll : List Node → List Node → Bool
  | [], [] => true
  | a :: as, b :: bs => a.equal b && equalAll as bs
  | _, _ => false

end

end ImpC
