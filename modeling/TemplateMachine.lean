import TemplateMachine.Bundle.Basic
import TemplateMachine.Bundle.Render
import TemplateMachine.Code.Bytes
import TemplateMachine.Code.Constants
import TemplateMachine.Code.Fragment
import TemplateMachine.Code.Heap
import TemplateMachine.Code.Image
import TemplateMachine.Code.Instruction
import TemplateMachine.Code.Listing
import TemplateMachine.Code.Pool
import TemplateMachine.Code.Primitive
import TemplateMachine.Code.Program
import TemplateMachine.Code.Verify
import TemplateMachine.CommandLine.Command
import TemplateMachine.CommandLine.Files
import TemplateMachine.CommandLine.Run
import TemplateMachine.Compile.Block
import TemplateMachine.Compile.Emit
import TemplateMachine.Compile.Error
import TemplateMachine.Compile.Expression
import TemplateMachine.Compile.Invocation
import TemplateMachine.Compile.Link
import TemplateMachine.Compile.Lookup
import TemplateMachine.Compile.Statement
import TemplateMachine.Datum.Arguments
import TemplateMachine.Datum.Basic
import TemplateMachine.Datum.Iteration
import TemplateMachine.Datum.Reference
import TemplateMachine.Json.Basic
import TemplateMachine.Json.Document
import TemplateMachine.Json.Literal
import TemplateMachine.Json.Printer
import TemplateMachine.Json.Reader
import TemplateMachine.Machine.Builtin
import TemplateMachine.Machine.Component
import TemplateMachine.Machine.Control
import TemplateMachine.Machine.Error
import TemplateMachine.Machine.Host
import TemplateMachine.Machine.Registry
import TemplateMachine.Machine.Render
import TemplateMachine.Machine.State
import TemplateMachine.Machine.Step
import TemplateMachine.Machine.Trace
import TemplateMachine.Machine.Value
import TemplateMachine.Main
import TemplateMachine.Markup.Sink
import TemplateMachine.Number.Binary64
import TemplateMachine.Number.Decimal
import TemplateMachine.Number.Shortest
import TemplateMachine.Number.Text
import TemplateMachine.Proofs.Datum.Change
import TemplateMachine.Proofs.Datum.Keys
import TemplateMachine.Proofs.Datum.Literal
import TemplateMachine.Proofs.Datum.Merge
import TemplateMachine.Proofs.Emission.Advance
import TemplateMachine.Proofs.Emission.Again
import TemplateMachine.Proofs.Emission.Append
import TemplateMachine.Proofs.Emission.Await
import TemplateMachine.Proofs.Emission.Basic
import TemplateMachine.Proofs.Emission.Block
import TemplateMachine.Proofs.Emission.Component
import TemplateMachine.Proofs.Emission.Cycle
import TemplateMachine.Proofs.Emission.Failure
import TemplateMachine.Proofs.Emission.Form
import TemplateMachine.Proofs.Emission.Landing
import TemplateMachine.Proofs.Emission.Lazy
import TemplateMachine.Proofs.Emission.Once
import TemplateMachine.Proofs.Emission.StaticBlock
import TemplateMachine.Proofs.Emission.Tiling
import TemplateMachine.Proofs.Image.Loading
import TemplateMachine.Proofs.Json.Canonical
import TemplateMachine.Proofs.Json.Field
import TemplateMachine.Proofs.Markup.Classes
import TemplateMachine.Proofs.Markup.Escape
import TemplateMachine.Proofs.Markup.Names
import TemplateMachine.Proofs.Markup.Tags
import TemplateMachine.Proofs.Number.Integer
import TemplateMachine.Proofs.Render.Closure
import TemplateMachine.Proofs.Render.Currying
import TemplateMachine.Proofs.Render.Destruction
import TemplateMachine.Proofs.Render.Evaluation
import TemplateMachine.Proofs.Render.History
import TemplateMachine.Proofs.Render.Invocation
import TemplateMachine.Proofs.Render.Literal
import TemplateMachine.Proofs.Render.Meaning
import TemplateMachine.Proofs.Render.Naming
import TemplateMachine.Proofs.Render.Nesting
import TemplateMachine.Proofs.Render.Outcome
import TemplateMachine.Proofs.Render.Ownership
import TemplateMachine.Proofs.Render.Parameters
import TemplateMachine.Proofs.Render.Request
import TemplateMachine.Proofs.Render.Restoration
import TemplateMachine.Proofs.Render.Safety
import TemplateMachine.Proofs.Render.Stance
import TemplateMachine.Proofs.Render.Termination
import TemplateMachine.Proofs.Render.Trust
import TemplateMachine.Proofs.Render.Undoing
import TemplateMachine.Proofs.Run.Block
import TemplateMachine.Proofs.Run.Calls
import TemplateMachine.Proofs.Run.Component
import TemplateMachine.Proofs.Run.Invariant
import TemplateMachine.Proofs.Run.Layout
import TemplateMachine.Proofs.Run.Ledger
import TemplateMachine.Proofs.Run.Markup
import TemplateMachine.Proofs.Run.Origin
import TemplateMachine.Proofs.Run.StaticBlock
import TemplateMachine.Proofs.Run.Trace
import TemplateMachine.Proofs.Run.Yield
import TemplateMachine.Proofs.Simulation.Component
import TemplateMachine.Proofs.Simulation.Form
import TemplateMachine.Proofs.Simulation.Invocation
import TemplateMachine.Proofs.Simulation.Render
import TemplateMachine.Proofs.Simulation.Statement
import TemplateMachine.Proofs.Template.RoundTrip
import TemplateMachine.Proofs.Verify.Reach
import TemplateMachine.Proofs.Verify.Safe
import TemplateMachine.Proofs.Verify.Tiles
import TemplateMachine.Proofs.Walk.Alike
import TemplateMachine.Proofs.Walk.Argument
import TemplateMachine.Proofs.Walk.Basic
import TemplateMachine.Proofs.Walk.Bracket
import TemplateMachine.Proofs.Walk.Compilable
import TemplateMachine.Proofs.Walk.Component
import TemplateMachine.Proofs.Walk.Content
import TemplateMachine.Proofs.Walk.Keep
import TemplateMachine.Proofs.Walk.Life
import TemplateMachine.Proofs.Walk.Owner
import TemplateMachine.Proofs.Walk.Passing
import TemplateMachine.Proofs.Walk.Places
import TemplateMachine.Proofs.Walk.Purity
import TemplateMachine.Proofs.Walk.Statement
import TemplateMachine.Settings.Basic
import TemplateMachine.Settings.Decode
import TemplateMachine.Template.Basic
import TemplateMachine.Template.Decode
import TemplateMachine.Template.Encode
import TemplateMachine.Template.Field
import TemplateMachine.Text.Case
import TemplateMachine.Text.CaseTable
import TemplateMachine.Text.Escape
import TemplateMachine.Text.Hex
import TemplateMachine.Text.Quoted
import TemplateMachine.Toml.Basic
import TemplateMachine.Toml.DateTime
import TemplateMachine.Toml.Number
import TemplateMachine.Toml.Reader
import TemplateMachine.Toml.Text
