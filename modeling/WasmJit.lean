import WasmJit.CommandLine
import WasmJit.Config
import WasmJit.Instruction.Decoding
import WasmJit.Machine.Assembly
import WasmJit.Machine.Execution
import WasmJit.Main
import WasmJit.Module.Decoding
import WasmJit.Module.Encoding
import WasmJit.Session
import WasmJit.Proofs.Machine.StraightLine
import WasmJit.Proofs.Operands.Consistency
import WasmJit.Proofs.Operands.Representation
import WasmJit.Proofs.Emission.Moves
import WasmJit.Proofs.Emission.Operations
import WasmJit.Proofs.Emission.Branches
import WasmJit.Proofs.Emission.Linking
import WasmJit.Proofs.Compilation.Frames
import WasmJit.Proofs.Compilation.HeightAnalysis
import WasmJit.Proofs.Compilation.Effects
import WasmJit.Proofs.Compilation.Invariant
import WasmJit.Proofs.Machine.Assembly
import WasmJit.Proofs.Compilation.HeightRefinement
import WasmJit.Proofs.Machine.Runs
import WasmJit.Proofs.Compilation.ControlFlow
import WasmJit.Proofs.Compilation.MemorySafety
import WasmJit.Proofs.Correctness.Continuation
import WasmJit.Proofs.Correctness.Reference
import WasmJit.Proofs.Correctness.Simulation
import WasmJit.Proofs.Correctness.Calls
import WasmJit.Proofs.Correctness.Structured
import WasmJit.Proofs.Format.Grammar
import WasmJit.Proofs.Format.Numbers
import WasmJit.Proofs.Format.Recognition
import WasmJit.Proofs.Format.RoundTrip
import WasmJit.Proofs.Compilation.Loading
import WasmJit.Proofs.Format.Canonical
import WasmJit.Proofs.Correctness.I32
import WasmJit.Proofs.Correctness.Sessions
import WasmJit.Proofs.Compilation.Validation
import WasmJit.Proofs.Compilation.Nesting
import WasmJit.Proofs.Compilation.Bookkeeping
import WasmJit.Proofs.Compilation.DeadCode
import WasmJit.Proofs.Correctness.Flags
import WasmJit.Proofs.Correctness.RegisterPressure
import WasmJit.Proofs.Format.CustomSections
import WasmJit.Proofs.Format.Groups
import WasmJit.Proofs.Compilation.Boundaries
import WasmJit.Proofs.Format.BlockTypes
import WasmJit.Proofs.Correctness.Placement
import WasmJit.Proofs.Format.SignedGroups
import WasmJit.Proofs.Operands.Histories
import WasmJit.Proofs.CommandLine.OptionSyntax
import WasmJit.Proofs.CommandLine.ExitCodes
