import ImpC.Build.Basic

/-!
# Drafts

A draft is a program that has not been checked: a tree of constructs without types. `Draft.build` builds it from the
leaves up and from left to right, the parts of a construct before the construct itself, so what is declared on the left
is known on the right. A draft may name an operator by its token, contain trees that were built earlier, and contain
nodes that are put together as they are, which are not checked and declare nothing.
-/

namespace ImpC

/-- A program that has not been checked. -/
inductive Draft where
  /-- A construct to be checked. -/
  | construct (c : Construct Draft)
  /-- A binary operation whose operator is given by its token. -/
  | binary (token : String) (left right : Draft)
  /-- A node taken as it is, with the static type it is said to have. -/
  | given (c : Construct Draft) (ty : Option Ty)
  /-- A tree that was built earlier. -/
  | built (n : Node)

namespace Draft

mutual

/-- Builds a draft. -/
def build : Draft → BuildM Node
  | .construct c => do
    let c ← buildParts c
    make c
  | .binary token l r => do
    let l ← build l
    let r ← build r
    makeBinary token l r
  | .given c ty => do
    let c ← buildParts c
    return ⟨c, ty⟩
  | .built n => return n

/-- Builds the parts of a construct from left to right. -/
def buildParts : Construct Draft → BuildM (Construct Node)
  | .int v => return .int v
  | .float v => return .float v
  | .text s => return .text s
  | .var x => return .var x
  | .binary op l r => do
    let l ← build l
    let r ← build r
    return .binary op l r
  | .assign x v => do
    let v ← build v
    return .assign x v
  | .call f args => do
    let args ← buildAll args
    return .call f args
  | .print v => do
    let v ← build v
    return .print v
  | .read x => return .read x
  | .declare v => return .declare v
  | .branch c a none => do
    let c ← build c
    let a ← build a
    return .branch c a none
  | .branch c a (some b) => do
    let c ← build c
    let a ← build a
    let b ← build b
    return .branch c a (some b)
  | .loop c b => do
    let c ← build c
    let b ← build b
    return .loop c b
  | .count i c u b => do
    let i ← build i
    let c ← build c
    let u ← build u
    let b ← build b
    return .count i c u b
  | .block ss => do
    let ss ← buildAll ss
    return .block ss
  | .function f ps b r => do
    let ps ← buildAll ps
    let b ← build b
    let r ← build r
    return .function f ps b r
  | .ret v => do
    let v ← build v
    return .ret v

/-- Builds drafts one after the other. -/
def buildAll : List Draft → BuildM (List Node)
  | [] => return []
  | d :: ds => do
    let n ← build d
    let ns ← buildAll ds
    return n :: ns

end

end Draft

end ImpC
