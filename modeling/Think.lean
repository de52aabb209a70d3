import Think.Main
import Think.Node.Cursor
import Think.Report
import Think.Store.Registry
import Think.Proofs.Parse.Yield
import Think.Proofs.Parse.Grammar
import Think.Proofs.Parse.Soundness
import Think.Proofs.Parse.Fuel
import Think.Proofs.Parse.Printing
import Think.Proofs.Parse.Reads
import Think.Proofs.Parse.Place
import Think.Proofs.Parse.Completeness
import Think.Proofs.Token.Scanning
import Think.Proofs.IntExpr.Syntax
import Think.Proofs.Eval.Basic
import Think.Proofs.IntExpr.Evaluation
import Think.Proofs.IntExpr.Run
import Think.Proofs.Eval.Changes
import Think.Proofs.Eval.Builtins
import Think.Proofs.Eval.Signals
import Think.Proofs.Eval.Reach
import Think.Proofs.Eval.Return
import Think.Proofs.Parse.Mirror
import Think.Proofs.Parse.Seam
import Think.Proofs.Parse.Kept
import Think.Proofs.Parse.Concatenation
import Think.Proofs.Token.Concatenation
import Think.Proofs.Parse.Rejection
import Think.Proofs.Parse.CallStart
import Think.Proofs.Program.Join
import Think.Proofs.Program.Lines
import Think.Proofs.Eval.Frame
import Think.Proofs.Eval.Origin
import Think.Proofs.Eval.Contents
import Think.Proofs.Eval.LoopControl
import Think.Proofs.Eval.Operators
import Think.Proofs.Eval.Places
import Think.Proofs.Eval.Alike
import Think.Proofs.Eval.Lockstep
import Think.Proofs.Eval.LockstepBuiltins
import Think.Proofs.Eval.Simulation
import Think.Proofs.Eval.Sound
import Think.Proofs.Eval.Course
import Think.Proofs.Eval.Invariant
import Think.Proofs.Eval.Confinement
import Think.Proofs.Eval.Spares
import Think.Proofs.Eval.Scope
import Think.Proofs.Eval.Shown
import Think.Proofs.Program.Script
import Think.Proofs.Token.Lexis
import Think.Proofs.Token.Tiling
import Think.Proofs.Token.Coordinates
import Think.Proofs.Token.Declaration
import Think.Proofs.Eval.Record
import Think.Proofs.Eval.Sharing
import Think.Proofs.Eval.Exclusive
import Think.Proofs.Eval.Hidden
import Think.Proofs.Eval.IsMain
import Think.Proofs.Eval.Traceback
import Think.Proofs.Eval.Edits
import Think.Proofs.Eval.ListStore
import Think.Proofs.Eval.Counting
import Think.Proofs.World.Files
import Think.Proofs.Eval.Streams
import Think.Proofs.Parse.Termination
import Think.Proofs.Eval.Writing
import Think.Proofs.Eval.Breakdowns
import Think.Proofs.Token.Quotation
import Think.Proofs.Text.Pieces
import Think.Proofs.Eval.Pieces
import Think.Proofs.Eval.StraightLine
import Think.Proofs.Program.Library
import Think.Proofs.Program.Importing
import Think.Proofs.Program.Reversal
import Think.Proofs.Text.Fence
import Think.Proofs.Number.Decimal
import Think.Proofs.Number.Truth
import Think.Proofs.Eval.Conditions
import Think.Proofs.Program.MathLibrary
import Think.Proofs.Program.RandomLists
import Think.Proofs.Text.Lines
import Think.Proofs.Text.Excerpt
import Think.Proofs.Parse.Standing
import Think.Proofs.Eval.Conversion
import Think.Proofs.World.Random
import Think.Proofs.Eval.Picking
import Think.Proofs.Report.Plateau
