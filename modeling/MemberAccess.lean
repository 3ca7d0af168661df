import MemberAccess.Code.Mnemonic
import MemberAccess.Workspace
import MemberAccess.Proofs.Instructions
import MemberAccess.Proofs.Depth
import MemberAccess.Proofs.Segments
import MemberAccess.Proofs.Compilation
import MemberAccess.Proofs.Answers
import MemberAccess.Proofs.Boxing
import MemberAccess.Proofs.CallAgreement
import MemberAccess.Proofs.FieldAgreement
import MemberAccess.Proofs.CheckedRuns
import MemberAccess.Proofs.OperandKinds
import MemberAccess.Proofs.Definitions
import MemberAccess.Proofs.Layouts
import MemberAccess.Proofs.Memories
import MemberAccess.Proofs.Operations
import MemberAccess.Proofs.HeapTyping
import MemberAccess.Proofs.Dispatch
import MemberAccess.Proofs.EarlyFailures
import MemberAccess.Proofs.Nesting
import MemberAccess.Proofs.StructLayouts
import MemberAccess.Proofs.RoundTrips
import MemberAccess.Proofs.Receivers
import MemberAccess.Proofs.PropertyAgreement
import MemberAccess.Proofs.Overriding
import MemberAccess.Proofs.ArgumentArrays
import MemberAccess.Proofs.Defects
import MemberAccess.Proofs.Assembling
import MemberAccess.Proofs.Totality
import MemberAccess.Proofs.ForeignReceivers
import MemberAccess.Proofs.ConversionCode
import MemberAccess.Proofs.Encodings
import MemberAccess.Proofs.Misuse
import MemberAccess.Proofs.Histories
import MemberAccess.Proofs.Finishing
import MemberAccess.Proofs.Defaults
import MemberAccess.Proofs.Lookups
import MemberAccess.Proofs.Assignability
import MemberAccess.Proofs.ConstructorChoice
import MemberAccess.Proofs.Unboxing
import MemberAccess.Proofs.NameLists
