import MemberAccess.Code.Assembly
import MemberAccess.Code.Machine

/-!
The calling conventions of compiled invokers, and what keeps a member from having one.
-/

namespace MemberAccess.Invoker

open Code (Signature ArgumentKind Instr BodyError)

inductive Kind
  | constructor
  | method
  | fieldReader
  | fieldWriter
  deriving DecidableEq

namespace Kind

def text : Kind → String
  | constructor => "constructor"
  | method => "method"
  | fieldReader => "field getter"
  | fieldWriter => "field setter"

/-- Receivers and field values are passed as such, arguments in an array. -/
def signature : Kind → Signature
  | constructor => ⟨[.objectArray], true⟩
  | method => ⟨[.object, .objectArray], true⟩
  | fieldReader => ⟨[.object], true⟩
  | fieldWriter => ⟨[.object, .object], false⟩

end Kind

inductive Policy
  /-- The receiver is cast to the declaring type before the member runs. -/
  | checked
  /-- The receiver is passed on as it is, for the member itself to reject. -/
  | trusted
  deriving DecidableEq

inductive MemberSort
  | constructor
  | method
  | field
  | property
  deriving DecidableEq

def MemberSort.text : MemberSort → String
  | constructor => "constructor"
  | method => "method"
  | field => "field"
  | property => "property"

inductive CompileError
  | memberNotFound (type : String) (kind : MemberSort) (name : String)
  /-- The type has no public constructor without parameters. -/
  | noPublicConstructor (type : String)
  | byRefParameter (member param : String)
  /-- More parameters than the locals of a body can hold. -/
  | tooManyParameters (member : String) (count : Nat)
  | rejectedBody (member : String) (cause : BodyError)
  deriving DecidableEq

namespace CompileError

def cause? : CompileError → Option BodyError
  | rejectedBody _ cause => some cause
  | _ => none

def message : CompileError → String
  | memberNotFound type kind name => s!"{type} has no {kind.text} {name}"
  | noPublicConstructor type => s!"{type} has no public parameterless constructor"
  | byRefParameter member param => s!"{member}: by-reference parameter {param} is not supported"
  | tooManyParameters member count =>
    s!"{member}: {count} parameters exceed the local slot limit"
  | rejectedBody member cause => s!"{member}: invalid thunk body: {cause.message}"

end CompileError

/-- One local for each parameter and one more have to be addressable. -/
def maxParams : Nat := 65534

/-- Parameters can be passed in an array if none is by reference and there are not too many. -/
def acceptParams (member : String) (params : List Param) : Except CompileError Unit :=
  match params.find? Param.byRef with
  | some p => .error (.byRefParameter member p.name)
  | none =>
    if params.length ≤ maxParams then .ok ()
    else .error (.tooManyParameters member params.length)

/-- Takes the elements of an array argument apart into locals, converted to the parameter types. -/
def unpack (arrayArgument : UInt16) (firstLocal : Nat) (params : List Param) : List Instr :=
  params.zipIdx.flatMap fun (p, i) =>
    [.loadArgument arrayArgument, .loadConstant (Int32.ofNat i), .ldelemRef, .coerce p.type,
      .storeLocal (UInt16.ofNat (firstLocal + i))]

/-- Puts `count` locals on the stack. -/
def reload (firstLocal count : Nat) : List Instr :=
  (List.range count).map fun i => .loadLocal (UInt16.ofNat (firstLocal + i))

/-- Casts the receiver on the stack if the policy asks for it. -/
def castReceiver (policy : Policy) (declaring : Ty) : List Instr :=
  match policy with
  | .checked => [.castclass declaring]
  | .trusted => []

end MemberAccess.Invoker
