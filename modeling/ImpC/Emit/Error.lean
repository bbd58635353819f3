/-!
# Why a tree cannot be emitted

Trees that were built by the checks of the language can always be emitted. A tree that was put together by hand may have
a statement where a value is needed, or read into a variable that nobody declared.
-/

namespace ImpC

/-- The reasons why a tree cannot be emitted. -/
inductive EmitError where
  /-- A value is read into a variable that has no type. -/
  | unknownReadTarget (name : String)
  /-- A statement stands where something else, described by the phrase, is needed. -/
  | unexpectedStatement (expected : String)
  deriving DecidableEq, Repr, Inhabited

namespace EmitError

/-- What the error says. -/
def message : EmitError → String
  | unknownReadTarget name => s!"cannot read into `{name}`: no declared type"
  | unexpectedStatement expected => s!"statement found where {expected} was expected"

/-- The name the error is about. -/
def subject? : EmitError → Option String
  | unknownReadTarget name => some name
  | unexpectedStatement _ => none

end EmitError

end ImpC
