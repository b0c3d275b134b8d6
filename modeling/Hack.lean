import Hack.Text.Read
import Hack.Text.Write
import Hack.Text.Uppercase
import Hack.Path
import Hack.Asm.Symbol
import Hack.Asm.Fields
import Hack.Asm.Line
import Hack.Machine.Program
import Hack.Machine.Basic
import Hack.Machine.Setup
import Hack.Vm.Command
import Hack.Vm.Source
import Hack.Codegen.Lowering
import Hack.Codegen.Code
import Hack.Codegen.Listing
import Hack.Tool.Options
import Hack.Tool.Files
import Hack.Tool.Script
import Hack.Tool.Translator
import Hack.Tool.Assembler
import Hack.Tool.Emulator
import Hack.Main
import Hack.Proofs.Codegen.Correct
import Hack.Proofs.Codegen.Accepts
import Hack.Proofs.Machine.Binary
import Hack.Proofs.Tool.Translator
import Hack.Proofs.Codegen.Termination
import Hack.Proofs.Codegen.Listing
import Hack.Proofs.Codegen.Comparison
import Hack.Proofs.Machine.Setup
import Hack.Proofs.Machine.Checked
import Hack.Proofs.Machine.Loader
import Hack.Proofs.Tool.Refusal
import Hack.Proofs.Tool.Assembler
import Hack.Proofs.Codegen.Single
import Hack.Proofs.Machine.Label
import Hack.Proofs.Codegen.Straight
import Hack.Proofs.Codegen.Footprint
import Hack.Proofs.Tool.Emulator
import Hack.Proofs.Asm.Grammar
import Hack.Proofs.Codegen.Redundancy
import Hack.Proofs.Machine.Cells
