import Yavm.Basis.BufferedInput
import Yavm.Basis.LittleEndian
import Yavm.Basis.Run
import Yavm.Basis.Leads
import Yavm.Basis.Simulation
import Yavm.Basis.Text
import Yavm.Basis.TwosComplement
import Yavm.Isa.Instr
import Yavm.Isa.Machine
import Yavm.Lc3.State
import Yavm.Lc3.Memory
import Yavm.Lc3.Instructions
import Yavm.Lc3.Image
import Yavm.Lc3.Effect
import Yavm.Lc3.Reads
import Yavm.Lc3.Execute
import Yavm.Lc3.Bounds
import Yavm.Lc3.Flags
import Yavm.Lc3.Linkage
import Yavm.Lc3.Coherence
import Yavm.Lc3.Frame
import Yavm.Lc3.Values
import Yavm.Lc3.Keyboard
import Yavm.Lc3.Delivery
import Yavm.Lc3.Strings
import Yavm.Lc3.Display
import Yavm.Lc3.Output
import Yavm.Lc3.Terminal
import Yavm.Lc3.Inert
import Yavm.Lc3.Trouble
import Yavm.Lc3.Endings
import Yavm.Lc3.Stuck
import Yavm.Lc3.Devices
import Yavm.Lc3.Processor
import Yavm.Lc3.Programs
import Yavm.Lc3.Similar
import Yavm.Lc3.ControlFlow
import Yavm.Lc3.Safety
import Yavm.Lc3.Stage
import Yavm.Lc3.Guests
import Yavm.Java.Machine
import Yavm.Java.Handlers
import Yavm.Java.Range
import Yavm.Java.Control
import Yavm.Java.Agreement
import Yavm.Java.Arithmetic
import Yavm.Java.Access
import Yavm.Java.Letters
import Yavm.Java.Strings
import Yavm.Java.Loader
import Yavm.Java.Traps
import Yavm.Java.Endings
import Yavm.Elf.Header
import Yavm.Elf.Parse
import Yavm.Elf.Format
import Yavm.Elf.Decode
import Yavm.Elf.Members
import Yavm.Elf.Acceptance
import Yavm.Elf.RoundTrip
import Yavm.Elf.Locals
import Yavm.Elf.Words
import Yavm.Elf.Pipeline
import Yavm.Elf.Report
import Yavm.Elf.Endings
