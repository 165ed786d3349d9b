import CircuitTrace.Main
import CircuitTrace.Pauli.Json
import CircuitTrace.Proofs.Operation.Wires
import CircuitTrace.Proofs.Translation.Body
import CircuitTrace.Proofs.Trace.CallTree
import CircuitTrace.Proofs.Pauli.Conjugation
import CircuitTrace.Proofs.Translation.ExponentialCircuit
import CircuitTrace.Proofs.Live.Echo
import CircuitTrace.Proofs.Trace.Orderly
import CircuitTrace.Proofs.Live.Refinement
import CircuitTrace.Proofs.Operation.Preorder
import CircuitTrace.Proofs.Register.Allocator
import CircuitTrace.Proofs.Trace.Kept
import CircuitTrace.Proofs.Trace.WellFormed
import CircuitTrace.Proofs.Translation.Qubits
import CircuitTrace.Proofs.Trace.MeasurementBody
import CircuitTrace.Proofs.Translation.Frontier
import CircuitTrace.Proofs.Live.Soundness
import CircuitTrace.Proofs.Translation.Levels
import CircuitTrace.Proofs.Translation.Reached
import CircuitTrace.Proofs.Trace.ClassicalBits
import CircuitTrace.Proofs.Translation.Symbols
import CircuitTrace.Proofs.Translation.Measured
import CircuitTrace.Proofs.Json.Lexemes
import CircuitTrace.Proofs.Json.Documents
import CircuitTrace.Proofs.Json.Records
import CircuitTrace.Proofs.Operation.RoundTrip
import CircuitTrace.Proofs.Notification.Recording
import CircuitTrace.Proofs.Translation.Distinct
import CircuitTrace.Proofs.Translation.Tour
import CircuitTrace.Proofs.Translation.Strictness
import CircuitTrace.Proofs.Translation.Depth
import CircuitTrace.Proofs.Live.Completeness
import CircuitTrace.Proofs.Trace.Brackets
import CircuitTrace.Proofs.Translation.Adjoint
import CircuitTrace.Proofs.Translation.Noted
import CircuitTrace.Proofs.Script.Origin
import CircuitTrace.Proofs.Script.Lines
import CircuitTrace.Proofs.Script.Comments
import CircuitTrace.Proofs.Translation.Cursor
import CircuitTrace.Proofs.Translation.Stopped
import CircuitTrace.Proofs.Trace.MergedTargets
import CircuitTrace.Proofs.Trace.OpenCalls
import CircuitTrace.Proofs.Live.OpenCalls
import CircuitTrace.Proofs.Translation.Continuation
import CircuitTrace.Proofs.Translation.Tables
import CircuitTrace.Proofs.Translation.Annotation
import CircuitTrace.Proofs.Gate.CliffordArguments
import CircuitTrace.Proofs.Gate.RotationArguments
import CircuitTrace.Proofs.Register.Requests
import CircuitTrace.Proofs.Gate.ExponentialArguments
import CircuitTrace.Proofs.Translation.Contract
import CircuitTrace.Proofs.Script.Layouts
