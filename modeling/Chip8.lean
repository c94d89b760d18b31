import Chip8.Instruction.Decode
import Chip8.Machine.Cycle
import Chip8.Main
import Chip8.Session.Paced
import Chip8.Terminal.Paced
import Chip8.Window.Paced
import Chip8.Proofs.Effects
import Chip8.Proofs.AddressRange
import Chip8.Proofs.CallMatching
import Chip8.Proofs.EmptyRows
import Chip8.Proofs.Pixels
import Chip8.Proofs.Checked.Operations
import Chip8.Proofs.Checked.Drawing
import Chip8.Proofs.Checked.Decoding
import Chip8.Proofs.Checked.Parts
import Chip8.Proofs.Checked.Cycle
import Chip8.Proofs.Moves
import Chip8.Proofs.NoFailure
import Chip8.Proofs.RunHistory
import Chip8.Proofs.RunSummary
import Chip8.Proofs.NonInterference
import Chip8.Proofs.ClockIndependence
import Chip8.Proofs.AddressSpace
import Chip8.Proofs.Lifecycle
import Chip8.Proofs.Footprint
import Chip8.Proofs.ControlFlow
import Chip8.Proofs.Sprites
import Chip8.Proofs.TimerHistory
import Chip8.Proofs.Cadence
import Chip8.Proofs.Stores
import Chip8.Proofs.HeldKeys
import Chip8.Proofs.ToneEnds
import Chip8.Proofs.InstructionTable
import Chip8.Proofs.KeyWait
import Chip8.Proofs.WindowEvents
import Chip8.Proofs.Panels
import Chip8.Proofs.ScreenLayout
import Chip8.Proofs.IntegerArithmetic
import Chip8.Proofs.Overlays
import Chip8.Proofs.DataFlow
import Chip8.Proofs.StoredRegisters
import Chip8.Proofs.DecimalDisplay
import Chip8.Proofs.RegisterDump
import Chip8.Proofs.PixelIndependence
import Chip8.Proofs.KeyReleases
import Chip8.Proofs.Diagnostics
import Chip8.Proofs.RunLog
import Chip8.Proofs.AddressRing
import Chip8.Proofs.KeySet
