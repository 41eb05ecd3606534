import SensorScript.CommandLine.Commands
import SensorScript.Main
import SensorScript.Proofs.Program.Append
import SensorScript.Proofs.Program.Attempt
import SensorScript.Proofs.Program.Assemble
import SensorScript.Proofs.Program.FailFast
import SensorScript.Proofs.Program.Monotone
import SensorScript.Proofs.Program.Pipeline
import SensorScript.Session
import SensorScript.Proofs.Session.Run
import SensorScript.Proofs.Session.Cache
import SensorScript.Proofs.Session.InPlace
import SensorScript.Proofs.Session.Isolation
import SensorScript.Proofs.Image.Canonical
import SensorScript.Proofs.Image.Damage
import SensorScript.Proofs.MachineWord.BitLayout
import SensorScript.Proofs.MachineWord.Canonical
import SensorScript.Proofs.Script.Spelling
import SensorScript.Proofs.Program.Spelling
import SensorScript.Proofs.Renaming
import SensorScript.Proofs.Script.Renaming
import SensorScript.Proofs.Program.Renaming
import SensorScript.Proofs.Link.Sites
import SensorScript.Proofs.MachineWord.Faults
import SensorScript.Proofs.MachineWord.TypeCodes
import SensorScript.Proofs.Operand.Bytewise
import SensorScript.Proofs.Instruction.Text
import SensorScript.Proofs.MachineWord.Registers
import SensorScript.Proofs.Link.Targets
import SensorScript.Proofs.Draft.Callable
import SensorScript.Proofs.Program.LastError
import SensorScript.Proofs.CommandLine.Listing
import SensorScript.Proofs.Source.Reader
import SensorScript.Proofs.Program.Returns
import SensorScript.Proofs.Source.Scanner
import SensorScript.Proofs.CommandLine.Build
import SensorScript.Proofs.CommandLine.Render
import SensorScript.Proofs.Operand.Accumulator
