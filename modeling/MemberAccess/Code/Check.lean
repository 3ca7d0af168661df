import MemberAccess.Code.Listing

/-!
The check that makes a body runnable: every operand names something declared, no instruction takes
more from the stack than there is, and the code ends in its only `ret` with the stack that the
signature promises. Code is straight, so one pass over it decides.
-/

namespace MemberAccess.Code

inductive BodyError
  | localsRedeclared
  /-- More locals than an index can name. -/
  | tooManyLocals (count : Nat)
  | localOutOfRange (offset index declared : Nat)
  | argumentOutOfRange (offset index arity : Nat)
  | stackUnderflow (offset : Nat) (mnemonic : String) (depth : Nat)
  | stackImbalance (offset depth expected : Nat)
  | unreachableCode (offset : Nat)
  | missingReturn
  deriving DecidableEq

def BodyError.message : BodyError → String
  | localsRedeclared => "locals declared more than once"
  | tooManyLocals count => s!"{count} locals exceed the addressable slot range"
  | localOutOfRange offset index declared =>
    s!"{offsetText offset}: local {index} out of range ({declared} declared)"
  | argumentOutOfRange offset index arity =>
    s!"{offsetText offset}: argument {index} out of range (arity {arity})"
  | stackUnderflow offset mnemonic depth =>
    s!"{offsetText offset}: {mnemonic} underflows the stack (depth {depth})"
  | stackImbalance offset depth expected =>
    s!"{offsetText offset}: ret with stack depth {depth}, expected {expected}"
  | unreachableCode offset => s!"{offsetText offset}: unreachable code after ret"
  | missingReturn => "body does not end in ret"

namespace Body

/-- Number of locals that an index can name. -/
def maxLocals : Nat := 65536

def addLocal (b : Body) (t : Ty) : Except BodyError (Body × Nat) :=
  let index := b.locals.size
  if index < maxLocals then .ok ({ b with locals := b.locals.push t }, index)
  else .error (.tooManyLocals (index + 1))

/-- The operand of an instruction has to name something that is declared. -/
def operandError? (arity declared offset : Nat) (i : Instr) : Option BodyError :=
  match i with
  | .ldarg i => if i.toNat < arity then none else some (.argumentOutOfRange offset i.toNat arity)
  | .ldloc i | .stloc i =>
    if i.toNat < declared then none else some (.localOutOfRange offset i.toNat declared)
  | _ => none

/-- Follows the stack depth through code that starts at `offset` with `depth` entries, `peak` being
the most there have been; gives the peak if the code ends in its only `ret` at depth `expected`. -/
def checkFrom (arity declared expected : Nat) :
    List Instr → Nat → Nat → Nat → Except BodyError Nat
  | [], _, _, _ => .error .missingReturn
  | i :: rest, offset, depth, peak =>
    match operandError? arity declared offset i with
    | some e => .error e
    | none =>
      if i = .ret then
        if depth != expected then .error (.stackImbalance offset depth expected)
        else if rest.isEmpty then .ok peak
        else .error (.unreachableCode (offset + i.size))
      else if depth < i.pops then .error (.stackUnderflow offset i.mnemonic depth)
      else
        let after := depth - i.pops + i.pushes
        checkFrom arity declared expected rest (offset + i.size) after (max peak after)

/-- The greatest stack depth of a body that can be run, or its first defect. -/
def check (b : Body) : Except BodyError Nat :=
  let expected := if b.signature.returnsValue then 1 else 0
  checkFrom b.signature.arity b.locals.size expected b.code.toList 0 0 0

end Body

/-- A body that has passed the check. -/
structure Routine where
  body : Body
  maxStack : Nat
  checked : body.check = .ok maxStack

def Body.toRoutine (b : Body) : Except BodyError Routine :=
  match h : b.check with
  | .ok n => .ok ⟨b, n, h⟩
  | .error e => .error e

namespace Routine

def name (f : Routine) : String := f.body.name
def signature (f : Routine) : Signature := f.body.signature
def size (f : Routine) : Nat := f.body.size

end Routine

end MemberAccess.Code
