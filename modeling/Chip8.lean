import Chip8.Main
import Chip8.Proofs.Execution
import Chip8.Proofs.Step
import Chip8.Proofs.Batch
import Chip8.Proofs.Action
import Chip8.Proofs.Halting
import Chip8.Proofs.Range
import Chip8.Proofs.Calls
import Chip8.Proofs.Guarded.Basic
import Chip8.Proofs.Guarded.Loops
import Chip8.Proofs.Guarded.Agreement
import Chip8.Proofs.Frame
import Chip8.Proofs.Repaint
import Chip8.Proofs.Drawing
import Chip8.Proofs.Listing
import Chip8.Proofs.Sharing
import Chip8.Proofs.Encoding
import Chip8.Proofs.Reading
import Chip8.Proofs.Assembler
import Chip8.Proofs.History
import Chip8.Proofs.Toggles
import Chip8.Proofs.TimerModes
import Chip8.Proofs.TimerLaw
import Chip8.Proofs.Clock
import Chip8.Proofs.Saving
import Chip8.Proofs.Inputs
import Chip8.Proofs.View
import Chip8.Proofs.Journal
import Chip8.Proofs.Session
import Chip8.Proofs.Lifecycle
import Chip8.Proofs.KeyEvents
import Chip8.Proofs.Glyph
import Chip8.Proofs.Faults
import Chip8.Proofs.Pixels
import Chip8.Proofs.Operations
import Chip8.Proofs.Changes
import Chip8.Proofs.Flow
import Chip8.Proofs.Waiting
import Chip8.Proofs.Fading
import Chip8.Proofs.Loading
