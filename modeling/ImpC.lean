import ImpC.BinOp
import ImpC.Binary64
import ImpC.Build.Basic
import ImpC.Build.Draft
import ImpC.Build.Error
import ImpC.C.Definition
import ImpC.C.Expr
import ImpC.C.Function
import ImpC.C.Helper
import ImpC.C.Literal
import ImpC.C.Program
import ImpC.C.Stmt
import ImpC.Compile
import ImpC.Decimal.Layout
import ImpC.Decimal.Shortest
import ImpC.Emit.Error
import ImpC.Emit.Expr
import ImpC.Emit.Options
import ImpC.Emit.Program
import ImpC.Emit.Stmt
import ImpC.Env
import ImpC.Main
import ImpC.Proofs.Build.CallOrder
import ImpC.Proofs.Build.Client
import ImpC.Proofs.Build.Declared
import ImpC.Proofs.Build.Effect
import ImpC.Proofs.Build.Inference
import ImpC.Proofs.Build.Run
import ImpC.Proofs.Build.Step
import ImpC.Proofs.Build.Strict
import ImpC.Proofs.Build.Term
import ImpC.Proofs.Build.Typing
import ImpC.Proofs.C.Code
import ImpC.Proofs.C.Demand
import ImpC.Proofs.C.Execution
import ImpC.Proofs.C.Expr
import ImpC.Proofs.C.Floating
import ImpC.Proofs.C.Grammar
import ImpC.Proofs.C.Guards
import ImpC.Proofs.C.Integers
import ImpC.Proofs.C.Layout
import ImpC.Proofs.C.Literal
import ImpC.Proofs.C.Memory
import ImpC.Proofs.C.Names
import ImpC.Proofs.C.Needs
import ImpC.Proofs.C.Nesting
import ImpC.Proofs.C.Occurrence
import ImpC.Proofs.C.Parser
import ImpC.Proofs.C.Reading
import ImpC.Proofs.C.Scope
import ImpC.Proofs.C.Shown
import ImpC.Proofs.C.Spelling
import ImpC.Proofs.C.StringLiteral
import ImpC.Proofs.C.TextRoutines
import ImpC.Proofs.C.Token
import ImpC.Proofs.C.Tokens
import ImpC.Proofs.C.Types
import ImpC.Proofs.C.Unquoted
import ImpC.Proofs.C.Written
import ImpC.Proofs.Decimal.Rounding
import ImpC.Proofs.Decimal.Shortest
import ImpC.Proofs.Emit.Buffers
import ImpC.Proofs.Emit.CallGraph
import ImpC.Proofs.Emit.Composition
import ImpC.Proofs.Emit.Concatenation
import ImpC.Proofs.Emit.Conversion
import ImpC.Proofs.Emit.Division
import ImpC.Proofs.Emit.Expression
import ImpC.Proofs.Emit.FileScope
import ImpC.Proofs.Emit.Generator
import ImpC.Proofs.Emit.Growth
import ImpC.Proofs.Emit.Headers
import ImpC.Proofs.Emit.Layout
import ImpC.Proofs.Emit.Names
import ImpC.Proofs.Emit.NormalForm
import ImpC.Proofs.Emit.ParameterNames
import ImpC.Proofs.Emit.Parameters
import ImpC.Proofs.Emit.Quotient
import ImpC.Proofs.Emit.Relation
import ImpC.Proofs.Emit.Requirements
import ImpC.Proofs.Emit.Returns
import ImpC.Proofs.Emit.Runtime
import ImpC.Proofs.Emit.Totality
import ImpC.Proofs.Env
import ImpC.Proofs.Env.History
import ImpC.Proofs.Registry
import ImpC.Proofs.Report.Escapes
import ImpC.Proofs.Report.Location
import ImpC.Proofs.Report.Rows
import ImpC.Proofs.Text.Lines
import ImpC.Proofs.Text.Quoted
import ImpC.Proofs.Tree.Heading
import ImpC.Proofs.Tree.Normal
import ImpC.Proofs.Tree.Outline
import ImpC.Proofs.Tree.Parts
import ImpC.Registry
import ImpC.Report.Layout
import ImpC.Report.Style
import ImpC.Sample
import ImpC.Text.Blank
import ImpC.Text.Columns
import ImpC.Text.Combining
import ImpC.Text.Ignorable
import ImpC.Text.Lines
import ImpC.Text.Occurrence
import ImpC.Text.Quoted
import ImpC.Text.Ranges
import ImpC.Text.Unprintable
import ImpC.Text.Wide
import ImpC.Text.ZeroWidth
import ImpC.Tree.Basic
import ImpC.Tree.Dump
import ImpC.Tree.Equal
import ImpC.Ty
