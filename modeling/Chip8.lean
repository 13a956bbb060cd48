import Chip8.Hex
import Chip8.Log
import Chip8.Layout
import Chip8.Nibble
import Chip8.Opcode
import Chip8.Instruction
import Chip8.Instruction.Encoding
import Chip8.Instruction.Assembly
import Chip8.Disassembly
import Chip8.Sink
import Chip8.Listing
import Chip8.Font
import Chip8.Memory
import Chip8.Registers
import Chip8.Display
import Chip8.Keypad
import Chip8.Timers
import Chip8.Clock
import Chip8.Machine
import Chip8.Machine.Execute
import Chip8.Machine.Cycle
import Chip8.Machine.Operation
import Chip8.Lister.Arguments
import Chip8.Lister.Host
import Chip8.Lister.Notice
import Chip8.Lister.Usage
import Chip8.Lister.Run
import Chip8.Lister.Path
import Chip8.Lister.FileTree
import Chip8.Lister.Surroundings
import Chip8.Main
import Chip8.Proofs.Runs
import Chip8.Proofs.Transfers
import Chip8.Proofs.CallStack
import Chip8.Proofs.Faults
import Chip8.Proofs.Halting
import Chip8.Proofs.AddressBits
import Chip8.Proofs.Sprites
import Chip8.Proofs.Redraw
import Chip8.Proofs.JumpTargets
import Chip8.Proofs.Loading
import Chip8.Proofs.InputIndependence
import Chip8.Proofs.Effects
import Chip8.Proofs.Stores
import Chip8.Proofs.Drawing
import Chip8.Proofs.Glyphs
import Chip8.Proofs.Encoding
import Chip8.Proofs.Lines
import Chip8.Proofs.Rows
import Chip8.Proofs.Walk
import Chip8.Proofs.Statements
import Chip8.Proofs.Writers
import Chip8.Proofs.LimitedWriters
import Chip8.Proofs.PlainListing
import Chip8.Proofs.Tracing
import Chip8.Proofs.Reports
import Chip8.Proofs.Destinations
import Chip8.Proofs.Transcripts
import Chip8.Proofs.ListerRuns
import Chip8.Proofs.AnnotatedListing
import Chip8.Proofs.ListingAgreement
import Chip8.Proofs.Successors
import Chip8.Proofs.Superposition
import Chip8.Proofs.Arithmetic
import Chip8.Proofs.Dumps
import Chip8.Proofs.TimerHistory
import Chip8.Proofs.HeldKeys
import Chip8.Proofs.WallClock
import Chip8.Proofs.Waiting
import Chip8.Proofs.Patterns
