import TapeLang.Atom
import TapeLang.CommandLine.Folder
import TapeLang.CommandLine.Launch
import TapeLang.CommandLine.Options
import TapeLang.CommandLine.Session
import TapeLang.CommandLine.Transcript
import TapeLang.CommandLine.Trial
import TapeLang.Compilation
import TapeLang.Compilation.Error
import TapeLang.Compilation.Fusion
import TapeLang.Crash
import TapeLang.Instruction
import TapeLang.Machine.Fault
import TapeLang.Machine.Raise
import TapeLang.Machine.Run
import TapeLang.Machine.State
import TapeLang.Machine.Step
import TapeLang.Main
import TapeLang.Memory
import TapeLang.Number.Binary64
import TapeLang.Number.Fraction
import TapeLang.Number.Shortest
import TapeLang.Offset
import TapeLang.Operation
import TapeLang.Profile
import TapeLang.Program
import TapeLang.Proofs.CommandLine.Arguments
import TapeLang.Proofs.CommandLine.CellCount
import TapeLang.Proofs.CommandLine.Diagnostics
import TapeLang.Proofs.CommandLine.Dump
import TapeLang.Proofs.CommandLine.Exits
import TapeLang.Proofs.CommandLine.Sessions
import TapeLang.Proofs.Compilation.Acceptance
import TapeLang.Proofs.Compilation.Calls
import TapeLang.Proofs.Compilation.Commands
import TapeLang.Proofs.Compilation.Comments
import TapeLang.Proofs.Compilation.Compiled
import TapeLang.Proofs.Compilation.Concatenation
import TapeLang.Proofs.Compilation.Fusion
import TapeLang.Proofs.Compilation.Keys
import TapeLang.Proofs.Compilation.Layout
import TapeLang.Proofs.Compilation.Mirror
import TapeLang.Proofs.Compilation.NormalForm
import TapeLang.Proofs.Compilation.Operands
import TapeLang.Proofs.Compilation.Progress
import TapeLang.Proofs.Compilation.Reading
import TapeLang.Proofs.Compilation.Recompilation
import TapeLang.Proofs.Compilation.Relocation
import TapeLang.Proofs.Compilation.Resumption
import TapeLang.Proofs.Compilation.SourceFile
import TapeLang.Proofs.Compilation.Spelling
import TapeLang.Proofs.Compilation.Unrolling
import TapeLang.Proofs.Compilation.Verdict
import TapeLang.Proofs.Machine.Diagnostics
import TapeLang.Proofs.Machine.Events
import TapeLang.Proofs.Machine.Legible
import TapeLang.Proofs.Machine.Lockstep
import TapeLang.Proofs.Machine.Mirror
import TapeLang.Proofs.Machine.Passing
import TapeLang.Proofs.Machine.Progress
import TapeLang.Proofs.Machine.Raise
import TapeLang.Proofs.Machine.Reads
import TapeLang.Proofs.Machine.Retry
import TapeLang.Proofs.Machine.Row
import TapeLang.Proofs.Machine.Safety
import TapeLang.Proofs.Machine.Scanning
import TapeLang.Proofs.Machine.Step
import TapeLang.Proofs.Machine.Stop
import TapeLang.Proofs.Machine.Streams
import TapeLang.Proofs.Machine.Widening
import TapeLang.Proofs.Position
import TapeLang.Proofs.Profile
import TapeLang.Proofs.Profile.Ranking
import TapeLang.Proofs.Program.Jumps
import TapeLang.Proofs.Program.Listing
import TapeLang.Proofs.Program.Piece
import TapeLang.Proofs.Refinement.Comments
import TapeLang.Proofs.Refinement.Counting
import TapeLang.Proofs.Refinement.Implementation
import TapeLang.Proofs.Refinement.Optimization
import TapeLang.Proofs.Refinement.Shortcut
import TapeLang.Proofs.Refinement.Standing
import TapeLang.Proofs.Refinement.Unfolding
import TapeLang.Proofs.Simulation
import TapeLang.Proofs.Source.Block
import TapeLang.Proofs.Source.Bracket
import TapeLang.Proofs.Source.Bytes
import TapeLang.Proofs.Source.Cursor
import TapeLang.Proofs.Source.Expansion
import TapeLang.Proofs.Source.LineEnd
import TapeLang.Proofs.Source.Partner
import TapeLang.Proofs.Source.Place
import TapeLang.Proofs.Source.Walk
import TapeLang.Proofs.Tape
import TapeLang.Proofs.Tape.Mirror
import TapeLang.Proofs.Tape.Round
import TapeLang.Proofs.Tape.Scan
import TapeLang.Proofs.Tape.Widening
import TapeLang.Proofs.Text.Fields
import TapeLang.Proofs.Text.Numeral
import TapeLang.Proofs.Text.Utf8
import TapeLang.Proofs.World
import TapeLang.Proofs.World.Loop
import TapeLang.Source.Cursor
import TapeLang.Source.Reading
import TapeLang.Tape
import TapeLang.Tape.Scan
import TapeLang.Text.Blank
import TapeLang.Text.Decimal
import TapeLang.Text.Digit
import TapeLang.Text.LineEnd
import TapeLang.Text.Numeral
import TapeLang.Text.Printable
import TapeLang.Text.Quoted
import TapeLang.Text.Utf8
import TapeLang.Word
