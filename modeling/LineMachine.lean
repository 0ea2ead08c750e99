import LineMachine.CommandLine.Invocation
import LineMachine.Heap.Diagram
import LineMachine.Heap.Equality
import LineMachine.Main
import LineMachine.Proofs.Heap.Equality
import LineMachine.Proofs.Heap.Render
import LineMachine.Proofs.Machine.Failure
import LineMachine.Proofs.Machine.Frame
import LineMachine.Proofs.Machine.Lifecycle
import LineMachine.Proofs.Machine.Isolation
import LineMachine.Proofs.Heap.Overwrite
import LineMachine.Proofs.Heap.Path
import LineMachine.Proofs.Machine.Aliasing
import LineMachine.Proofs.Heap.Cycle
import LineMachine.Proofs.Instruction.Acyclicity
import LineMachine.Proofs.Machine.Acyclicity
import LineMachine.Proofs.Plain.Machine
import LineMachine.Proofs.Plain.Representation
import LineMachine.Proofs.Plain.Execution
import LineMachine.Proofs.Plain.Runs
import LineMachine.Proofs.CommandLine.Shell
import LineMachine.Proofs.Instruction.Decoding
import LineMachine.Proofs.Machine.Reading
import LineMachine.Proofs.CommandLine.Listing
import LineMachine.Proofs.Heap.Writing
import LineMachine.Proofs.Machine.Counting
import LineMachine.Proofs.CommandLine.Tracing
import LineMachine.Proofs.CommandLine.FileTree
import LineMachine.Proofs.Heap.Pairing
import LineMachine.Proofs.Instruction.Mirroring
import LineMachine.Proofs.Machine.Mirroring
import LineMachine.Proofs.Machine.Renaming
import LineMachine.Proofs.CommandLine.Assistant
import LineMachine.Proofs.Heap.Unfolding
import LineMachine.Proofs.Heap.Correspondence
import LineMachine.Proofs.Numeral.Literal
import LineMachine.Proofs.Instruction.Failing
import LineMachine.Proofs.Machine.Safety
import LineMachine.Proofs.CommandLine.Prompt
import LineMachine.Proofs.Heap.Likeness
import LineMachine.Proofs.Machine.Budget
import LineMachine.Proofs.Heap.Fragments
import LineMachine.Proofs.Text.Pattern
import LineMachine.Proofs.Instruction.Spelling
import LineMachine.Proofs.Instruction.Checks
import LineMachine.Proofs.Heap.Memo
import LineMachine.Proofs.Heap.Trees
import LineMachine.Proofs.CommandLine.ProgramText
import LineMachine.Proofs.CommandLine.Proposal
import LineMachine.Proofs.Machine.Integers
import LineMachine.Proofs.Machine.Operations
import LineMachine.Proofs.Machine.Snapshots
import LineMachine.Proofs.Machine.ForwardJumps
import LineMachine.Proofs.CommandLine.Options
import LineMachine.Proofs.Instruction.Listing
