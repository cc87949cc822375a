import NativeExpr.Main
import NativeExpr.Tree.Value
import NativeExpr.Proofs.Machine.Execution
import NativeExpr.Proofs.Machine.Writing
import NativeExpr.Proofs.Machine.Agreement
import NativeExpr.Proofs.MoveSchedule.Resolution
import NativeExpr.Proofs.MoveSchedule.Simultaneous
import NativeExpr.Proofs.RegisterPool
import NativeExpr.Proofs.Routine
import NativeExpr.Proofs.Build
import NativeExpr.Proofs.Labeling
import NativeExpr.Proofs.StackDepth.Emission
import NativeExpr.Proofs.StackDepth.Generation
import NativeExpr.Proofs.Convention
import NativeExpr.Proofs.Sharing
import NativeExpr.Proofs.Generation.Counting
import NativeExpr.Proofs.Generation.Order
import NativeExpr.Proofs.Generation.Staging
import NativeExpr.Proofs.Generation.Placement
import NativeExpr.Proofs.Generation.Basic
import NativeExpr.Proofs.Compilation
import NativeExpr.Proofs.StackDepth.Compilation
import NativeExpr.Proofs.Machine.Stack
import NativeExpr.Proofs.Preservation.Site
import NativeExpr.Proofs.Preservation.Carrying
import NativeExpr.Proofs.Preservation.Steps
import NativeExpr.Proofs.Preservation.Placement
import NativeExpr.Proofs.Preservation.Calling
import NativeExpr.Proofs.Preservation.Saving
import NativeExpr.Proofs.Preservation.Call
import NativeExpr.Proofs.Preservation.Evaluation
import NativeExpr.Proofs.Preservation.Generation
import NativeExpr.Proofs.Tree
import NativeExpr.Proofs.Preservation.Undisturbed
import NativeExpr.Proofs.Entry
import NativeExpr.Proofs.Conformance
import NativeExpr.Proofs.Meaning
import NativeExpr.Proofs.Once
import NativeExpr.Proofs.Ownership.Compilation
import NativeExpr.Proofs.Independence.Compilation
import NativeExpr.Proofs.Ledger.Basic
import NativeExpr.Proofs.Ledger.Placement
import NativeExpr.Proofs.Ledger.Generation
import NativeExpr.Proofs.Labeling.Need
import NativeExpr.Proofs.Ledger.Compilation
import NativeExpr.Proofs.Outcome
import NativeExpr.Proofs.Ledger.Room
import NativeExpr.Proofs.Room
import NativeExpr.Proofs.Pressure.Labels
import NativeExpr.Proofs.Pressure.Registers
import NativeExpr.Proofs.Pressure.Compilation
import NativeExpr.Instruction.Decoding
import NativeExpr.Proofs.Decoding
import NativeExpr.Proofs.Generation.Closure
import NativeExpr.Proofs.Exhaustion.Failure
import NativeExpr.Proofs.Generation.Opening
import NativeExpr.Proofs.Arrival
import NativeExpr.Proofs.Session.Lending
import NativeExpr.Proofs.Session.Basic
import NativeExpr.Proofs.Session.Generating
import NativeExpr.Proofs.Session.Meaning
import NativeExpr.Proofs.Labeling.Reference
import NativeExpr.Proofs.Handles
import NativeExpr.Proofs.Failure.Requests
import NativeExpr.Proofs.SlotPool
import NativeExpr.Proofs.MoveSchedule.Completion
import NativeExpr.Proofs.MoveSchedule.Economy
import NativeExpr.Proofs.Keeping
import NativeExpr.Proofs.Preference.Basic
import NativeExpr.Proofs.Classification
import NativeExpr.Proofs.Holdings
import NativeExpr.Proofs.StackDepth.Faults
import NativeExpr.Proofs.Inference
import NativeExpr.Proofs.FrameRange
