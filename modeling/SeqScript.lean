import SeqScript.Bindings
import SeqScript.Builtin
import SeqScript.CommandLine
import SeqScript.Fault.Cause
import SeqScript.Fault.Registry
import SeqScript.Fault.Report
import SeqScript.Fault.Template
import SeqScript.Location
import SeqScript.Main
import SeqScript.Names
import SeqScript.Number.Basic
import SeqScript.Number.Decimal
import SeqScript.Number.Numeral
import SeqScript.Proofs.Arguments
import SeqScript.Proofs.Bindings
import SeqScript.Proofs.CommandLine
import SeqScript.Proofs.Fault.Data
import SeqScript.Proofs.Fault.Messages
import SeqScript.Proofs.Fault.Place
import SeqScript.Proofs.Fault.Report
import SeqScript.Proofs.Fault.Template
import SeqScript.Proofs.Findings
import SeqScript.Proofs.Location
import SeqScript.Proofs.Names
import SeqScript.Proofs.Number.Digits
import SeqScript.Proofs.Number.Longest
import SeqScript.Proofs.Number.ReadBack
import SeqScript.Proofs.Number.Rounding
import SeqScript.Proofs.Number.Whole
import SeqScript.Proofs.Queries
import SeqScript.Proofs.Run.Aborts
import SeqScript.Proofs.Run.Assigned
import SeqScript.Proofs.Run.Begins
import SeqScript.Proofs.Run.CallOrder
import SeqScript.Proofs.Run.Confinement
import SeqScript.Proofs.Run.Displays
import SeqScript.Proofs.Run.Effect
import SeqScript.Proofs.Run.EmptySlots
import SeqScript.Proofs.Run.Ensures
import SeqScript.Proofs.Run.FailedSteps
import SeqScript.Proofs.Run.Failures
import SeqScript.Proofs.Run.Freezing
import SeqScript.Proofs.Run.InProgress
import SeqScript.Proofs.Run.Lengths
import SeqScript.Proofs.Run.ListCalls
import SeqScript.Proofs.Run.NameFailures
import SeqScript.Proofs.Run.NamesFound
import SeqScript.Proofs.Run.NewSequences
import SeqScript.Proofs.Run.Protocol
import SeqScript.Proofs.Run.Reasons
import SeqScript.Proofs.Run.Recorded
import SeqScript.Proofs.Run.Refusals
import SeqScript.Proofs.Run.Region
import SeqScript.Proofs.Run.Results
import SeqScript.Proofs.Run.SeparateRuns
import SeqScript.Proofs.Run.Stages
import SeqScript.Proofs.Run.SteppedOut
import SeqScript.Proofs.Run.Timeline
import SeqScript.Proofs.Run.TwinRuns
import SeqScript.Proofs.Run.Twins
import SeqScript.Proofs.Run.Unplaced
import SeqScript.Proofs.Run.UnplacedRuns
import SeqScript.Proofs.Run.WrittenBack
import SeqScript.Proofs.Settings
import SeqScript.Proofs.SettingsCopies
import SeqScript.Proofs.SettingsRead
import SeqScript.Proofs.SettingsShapes
import SeqScript.Proofs.Text.Quoted
import SeqScript.Proofs.Token.Adjacent
import SeqScript.Proofs.Token.Layout
import SeqScript.Proofs.Token.LineEnds
import SeqScript.Proofs.Token.Literals
import SeqScript.Proofs.Token.Local
import SeqScript.Proofs.Token.Places
import SeqScript.Proofs.Token.Regions
import SeqScript.Proofs.Token.Tiling
import SeqScript.Proofs.Token.Within
import SeqScript.Proofs.Tree.Abbreviation
import SeqScript.Proofs.Tree.Accepts
import SeqScript.Proofs.Tree.Bare
import SeqScript.Proofs.Tree.Demands
import SeqScript.Proofs.Tree.Derivation
import SeqScript.Proofs.Tree.Grammar
import SeqScript.Proofs.Tree.Lines
import SeqScript.Proofs.Tree.Listing
import SeqScript.Proofs.Tree.Nodes
import SeqScript.Proofs.Tree.Phrases
import SeqScript.Proofs.Tree.Places
import SeqScript.Proofs.Tree.Refusal
import SeqScript.Proofs.Tree.Reprint
import SeqScript.Proofs.Tree.Reread
import SeqScript.Proofs.Tree.RoundTrip
import SeqScript.Proofs.Tree.Sinks
import SeqScript.Proofs.Tree.Spans
import SeqScript.Proofs.Tree.Spelling
import SeqScript.Proofs.Value.Alike
import SeqScript.Proofs.Value.Built
import SeqScript.Proofs.Value.Change
import SeqScript.Proofs.Value.Depicted
import SeqScript.Proofs.Value.Mirror
import SeqScript.Proofs.Value.Printing
import SeqScript.Proofs.Value.Region
import SeqScript.Proofs.Value.Sequences
import SeqScript.Proofs.Value.Spelled
import SeqScript.Proofs.Visits
import SeqScript.Proofs.Yaml
import SeqScript.Run.Context
import SeqScript.Run.Evaluate
import SeqScript.Run.Result
import SeqScript.Run.Source
import SeqScript.Run.Stepper
import SeqScript.Settings.Basic
import SeqScript.Settings.Data
import SeqScript.Text.Basic
import SeqScript.Text.Letter
import SeqScript.Text.Quoted
import SeqScript.Token.Basic
import SeqScript.Token.Lexer
import SeqScript.Tree.Basic
import SeqScript.Tree.Parser
import SeqScript.Tree.Printer
import SeqScript.Tree.Sink
import SeqScript.Tree.Summary
import SeqScript.Tree.Traversal
import SeqScript.Value.Equality
import SeqScript.Value.Heap
import SeqScript.Value.Scalar
import SeqScript.Value.Shape
import SeqScript.Value.Written
import SeqScript.Yaml.Document
import SeqScript.Yaml.Piece
import SeqScript.Yaml.Scalar
import SeqScript.Yaml.Tree
