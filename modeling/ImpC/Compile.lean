import ImpC.Build.Draft
import ImpC.Emit.Program
import ImpC.Report.Layout
import ImpC.Text.Occurrence

/-!
# Compiling

To compile is to build a program against an empty environment and to emit what was built. `CompileError` keeps apart which
of the two failed. An error is shown against the program text by `CompileError.report`, which points at the first
occurrence of the name or operator the error is about. The place is measured in bytes and a report counts characters, so
behind characters of several bytes the report points further to the right.
-/

namespace ImpC

/-- The options of both stages. -/
structure CompileOptions where
  build : BuildOptions := {}
  emit : EmitOptions := .standard
  deriving DecidableEq, Repr, Inhabited

/-- Why a program was not compiled. -/
inductive CompileError where
  | build (e : BuildError)
  | emit (e : EmitError)
  deriving DecidableEq, Repr, Inhabited

namespace CompileError

/-- What went wrong, without the stage. -/
def detail : CompileError → String
  | build e => e.message
  | emit e => e.message

/-- What the error says. -/
def message : CompileError → String
  | build e => "type error: " ++ e.message
  | emit e => "code generation error: " ++ e.message

/-- The title of a report. -/
def title : CompileError → String
  | build _ => "Type error"
  | emit _ => "Code generation error"

/-- The name or operator the error is about. -/
def subject? : CompileError → Option String
  | build e => e.subject?
  | emit e => e.subject?

/-- The bytes of the source that the error is about: the first occurrence of its subject, or else the first byte. -/
def span (e : CompileError) (source : String) : Report.Span :=
  match e.subject? with
  | none => start
  | some subject =>
    match Text.firstOccurrence? subject.toList source.toList with
    | none => start
    | some before => ⟨Text.byteCount before, Text.byteCount before + subject.utf8ByteSize⟩
where
  /-- The first byte of the source, if it has one. -/
  start : Report.Span := ⟨0, min source.utf8ByteSize 1⟩

/-- The report of an error against the program text. -/
def report (e : CompileError) (source file : String) : Report :=
  ⟨e.title, e.detail, file, source, (e.span source).start, (e.span source).stop⟩

end CompileError

/-- Builds a program and emits it. -/
def compile (options : CompileOptions) (program : BuildM Node) : Except CompileError String :=
  match program.exec options.build .empty with
  | (.error e, _) => .error (.build e)
  | (.ok root, env) =>
    match Emit.programText options.emit env root with
    | .error e => .error (.emit e)
    | .ok text => .ok text

end ImpC
