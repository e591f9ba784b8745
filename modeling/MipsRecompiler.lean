import MipsRecompiler.Allocation.LinearScan
import MipsRecompiler.Allocation.Platform
import MipsRecompiler.CodeUnit.Basic
import MipsRecompiler.CodeUnit.Category
import MipsRecompiler.CodeUnit.Formation
import MipsRecompiler.CommandLine.Help
import MipsRecompiler.CommandLine.Options
import MipsRecompiler.CommandLine.Run
import MipsRecompiler.CompileError
import MipsRecompiler.Cpu.Exception
import MipsRecompiler.Cpu.Names
import MipsRecompiler.Cpu.RegisterFile
import MipsRecompiler.Cpu.State
import MipsRecompiler.Cpu.SystemControl
import MipsRecompiler.Emission.Basic
import MipsRecompiler.Emission.Block
import MipsRecompiler.Emission.Branch
import MipsRecompiler.Emission.Float
import MipsRecompiler.Emission.Memory
import MipsRecompiler.Engine.BlockDirectory
import MipsRecompiler.Engine.CodeCache
import MipsRecompiler.Engine.Compile
import MipsRecompiler.Engine.Recompiler
import MipsRecompiler.Engine.Step
import MipsRecompiler.Engine.Workspace
import MipsRecompiler.Enumeration
import MipsRecompiler.FloatingPoint
import MipsRecompiler.HostCode.Bytes
import MipsRecompiler.HostCode.Decode
import MipsRecompiler.HostCode.Execute
import MipsRecompiler.HostCode.Listing
import MipsRecompiler.HostCode.Lowering
import MipsRecompiler.HostCode.Operand
import MipsRecompiler.Instruction.Assembler
import MipsRecompiler.Instruction.Decode
import MipsRecompiler.Instruction.Disassembly
import MipsRecompiler.Instruction.Fields
import MipsRecompiler.Instruction.Illegal
import MipsRecompiler.Instruction.Operation
import MipsRecompiler.Instruction.View
import MipsRecompiler.Interpreter.Execute
import MipsRecompiler.Interpreter.Step
import MipsRecompiler.Ir.Arena
import MipsRecompiler.Ir.Block
import MipsRecompiler.Ir.Listing
import MipsRecompiler.Ir.Optimize
import MipsRecompiler.Ir.Value
import MipsRecompiler.Machine
import MipsRecompiler.Main
import MipsRecompiler.Memory.Access
import MipsRecompiler.Memory.Bus
import MipsRecompiler.Memory.ByteStore
import MipsRecompiler.Memory.Tlb
import MipsRecompiler.Proofs.Allocation.Coverage
import MipsRecompiler.Proofs.Allocation.Interference
import MipsRecompiler.Proofs.Allocation.Lifetimes
import MipsRecompiler.Proofs.Allocation.Pressure
import MipsRecompiler.Proofs.Allocation.Spilling
import MipsRecompiler.Proofs.Allocation.Steps
import MipsRecompiler.Proofs.CodeUnit.Building
import MipsRecompiler.Proofs.CodeUnit.Compiling
import MipsRecompiler.Proofs.CodeUnit.Fetching
import MipsRecompiler.Proofs.CodeUnit.Formation
import MipsRecompiler.Proofs.CodeUnit.Idle
import MipsRecompiler.Proofs.CodeUnit.Legality
import MipsRecompiler.Proofs.CodeUnit.Paging
import MipsRecompiler.Proofs.CodeUnit.Room
import MipsRecompiler.Proofs.CodeUnit.Shape
import MipsRecompiler.Proofs.Compilation
import MipsRecompiler.Proofs.Cpu.ControlWrites
import MipsRecompiler.Proofs.Cpu.Exceptions
import MipsRecompiler.Proofs.Cpu.GuestRegisters
import MipsRecompiler.Proofs.Cpu.ImplementedBits
import MipsRecompiler.Proofs.Effects
import MipsRecompiler.Proofs.Emission.Access
import MipsRecompiler.Proofs.Emission.Actions
import MipsRecompiler.Proofs.Emission.Classes
import MipsRecompiler.Proofs.Emission.Economy
import MipsRecompiler.Proofs.Emission.Exits
import MipsRecompiler.Proofs.Emission.Float
import MipsRecompiler.Proofs.Emission.Following
import MipsRecompiler.Proofs.Emission.Instruction
import MipsRecompiler.Proofs.Emission.Integer
import MipsRecompiler.Proofs.Emission.Keeping
import MipsRecompiler.Proofs.Emission.Rules
import MipsRecompiler.Proofs.Emission.Sites
import MipsRecompiler.Proofs.Emission.Stage
import MipsRecompiler.Proofs.Emission.Typing
import MipsRecompiler.Proofs.Emission.Unit
import MipsRecompiler.Proofs.Emission.Values
import MipsRecompiler.Proofs.Engine.Agreement
import MipsRecompiler.Proofs.Engine.Buffers
import MipsRecompiler.Proofs.Engine.CodeCache
import MipsRecompiler.Proofs.Engine.Counting
import MipsRecompiler.Proofs.Engine.Directory
import MipsRecompiler.Proofs.Engine.Failure
import MipsRecompiler.Proofs.Engine.History
import MipsRecompiler.Proofs.Engine.Integrity
import MipsRecompiler.Proofs.Engine.Overwriting
import MipsRecompiler.Proofs.Engine.Persistence
import MipsRecompiler.Proofs.Engine.Residence
import MipsRecompiler.Proofs.Engine.Retention
import MipsRecompiler.Proofs.Engine.Reuse
import MipsRecompiler.Proofs.Engine.Stepping
import MipsRecompiler.Proofs.Engine.Waiting
import MipsRecompiler.Proofs.HostCode.Completeness
import MipsRecompiler.Proofs.HostCode.Consumption
import MipsRecompiler.Proofs.HostCode.Invariance
import MipsRecompiler.Proofs.HostCode.Lowering
import MipsRecompiler.Proofs.HostCode.Reading
import MipsRecompiler.Proofs.HostCode.Refinement
import MipsRecompiler.Proofs.HostCode.RoundTrip
import MipsRecompiler.Proofs.Instruction.Assembling
import MipsRecompiler.Proofs.Instruction.Mnemonics
import MipsRecompiler.Proofs.Instruction.Places
import MipsRecompiler.Proofs.Interpreter.Outcomes
import MipsRecompiler.Proofs.Interpreter.Precision
import MipsRecompiler.Proofs.Interpreter.Stepping
import MipsRecompiler.Proofs.Ir.Brevity
import MipsRecompiler.Proofs.Ir.DeadCode
import MipsRecompiler.Proofs.Ir.Editing
import MipsRecompiler.Proofs.Ir.Evaluation
import MipsRecompiler.Proofs.Ir.Folding
import MipsRecompiler.Proofs.Ir.Linking
import MipsRecompiler.Proofs.Ir.Optimization
import MipsRecompiler.Proofs.Ir.Preservation
import MipsRecompiler.Proofs.Ir.Reachability
import MipsRecompiler.Proofs.Ir.Totality
import MipsRecompiler.Proofs.Ir.Viewing
import MipsRecompiler.Proofs.Ir.Walking
import MipsRecompiler.Proofs.Ir.WellFormed
import MipsRecompiler.Proofs.Ir.WriteBack
import MipsRecompiler.Proofs.Memory.Bytes
import MipsRecompiler.Proofs.Memory.Entries
import MipsRecompiler.Proofs.Memory.Lanes
import MipsRecompiler.Proofs.Memory.Pages
import MipsRecompiler.Proofs.Memory.ReadBack
import MipsRecompiler.Proofs.Memory.Refill
import MipsRecompiler.Proofs.Memory.Replacement
import MipsRecompiler.Proofs.Memory.Routines
import MipsRecompiler.Proofs.Memory.Similar
import MipsRecompiler.Proofs.Memory.Unaligned
import MipsRecompiler.Proofs.Word.Division
import MipsRecompiler.Word
import MipsRecompiler.Word.Arithmetic
import MipsRecompiler.Word.ByteMask
import MipsRecompiler.Word.Text
