import RuntimeContracts.Contract
import RuntimeContracts.Serial
import RuntimeContracts.Value.Hashing
import RuntimeContracts.Value.Inspection
import RuntimeContracts.Value.Rendering
import RuntimeContracts.Proofs.Memo.FirstInFirstOut
import RuntimeContracts.Proofs.Memo.Transparency
import RuntimeContracts.Proofs.Memo.Once
import RuntimeContracts.Proofs.Contract.Enforcement
import RuntimeContracts.Proofs.Machine.Coupling
import RuntimeContracts.Proofs.Machine.Depth
import RuntimeContracts.Proofs.Contract.Checkpoints
import RuntimeContracts.Proofs.Contract.Modes
import RuntimeContracts.Proofs.Cache.Retention
import RuntimeContracts.Proofs.Contract.Failures
import RuntimeContracts.Proofs.Spec.Renaming
import RuntimeContracts.Proofs.Memo.Predicates
import RuntimeContracts.Proofs.Signature.Collecting
import RuntimeContracts.Proofs.Contract.Assembly
import RuntimeContracts.Proofs.Signature.Positions
import RuntimeContracts.Proofs.Signature.FirstViolation
import RuntimeContracts.Proofs.Signature.Reordering
import RuntimeContracts.Proofs.Contract.Nesting
import RuntimeContracts.Proofs.Spec.Shape
import RuntimeContracts.Proofs.Signature.Shape
import RuntimeContracts.Proofs.Contract.WrapperOrder
import RuntimeContracts.Proofs.Number.Rounding
import RuntimeContracts.Proofs.Value.Allocation
import RuntimeContracts.Proofs.Value.Sharing
import RuntimeContracts.Proofs.Number.Agreement
import RuntimeContracts.Proofs.Value.Numbers
import RuntimeContracts.Proofs.Value.Sameness
import RuntimeContracts.Proofs.Value.Transitivity
import RuntimeContracts.Proofs.Value.Comparisons
import RuntimeContracts.Proofs.Value.Hashing
import RuntimeContracts.Proofs.Value.Fields
import RuntimeContracts.Proofs.Spec.Monotone
import RuntimeContracts.Proofs.Signature.Resemblance
import RuntimeContracts.Proofs.Spec.Extension
import RuntimeContracts.Proofs.Spec.Presence
import RuntimeContracts.Proofs.Spec.Alternatives
import RuntimeContracts.Proofs.Signature.Interchange
import RuntimeContracts.Proofs.Signature.Accumulation
import RuntimeContracts.Proofs.Spec.Reading
import RuntimeContracts.Proofs.Mode.Language
import RuntimeContracts.Proofs.Machine.Definitions
import RuntimeContracts.Proofs.Memo.Accounts
import RuntimeContracts.Proofs.Value.PlainData
import RuntimeContracts.Proofs.Memo.Representation
